import Frontend.Decl.Text

/-!
# Registration in modules

Each kind of declaration has its place in a module: functions under their mangled names, all others
under their own. A name that is taken refuses the declaration. Registration stamps a declaration
with the name of the module, and renaming a module stamps all of them anew.
-/

namespace Frontend

namespace Store

/-- Stamps a function with a module and says its mangled name from then on. -/
def stampFunction (s : Store) (module : String) (id : FunctionId) : String × Store :=
  let s := s.modifyFunction id fun f => { f with module? := some module }
  (((s.function? id).map s.mangledFunction).getD "", s)

/-- Registers a function under its mangled name. A refused function is stamped all the same. -/
def registerFunction (s : Store) (m : ModuleId) (id : FunctionId) : Bool × Store :=
  let (name, s) := s.stampFunction (s.module m).name id
  if (s.module m).functions.contains name then (false, s)
  else (true, s.modifyModule m fun x => { x with functions := x.functions.insert name id })

def registerGeneric (s : Store) (m : ModuleId) (id : FunctionId) : Bool × Store :=
  let (name, s) := s.stampFunction (s.module m).name id
  if (s.module m).generics.contains name then (false, s)
  else (true, s.modifyModule m fun x => { x with generics := x.generics.insert name id })

def registerVariable (s : Store) (m : ModuleId) (id : VarId) : Bool × Store :=
  let name := (s.var id).name
  if (s.module m).globals.contains name then (false, s)
  else
    let s := s.modifyVariable id fun v => { v with module? := some (s.module m).name }
    (true, s.modifyModule m fun x =>
      { x with globals := x.globals.insert name id, globalOrder := x.globalOrder ++ [id] })

def registerStruct (s : Store) (m : ModuleId) (id : StructId) : Bool × Store :=
  let name := ((s.struct? id).map (·.name)).getD ""
  if (s.module m).structs.contains name then (false, s)
  else
    let s := s.modifyStruct id fun x => { x with module? := some (s.module m).name }
    (true, s.modifyModule m fun x =>
      { x with structs := x.structs.insert name id, structOrder := x.structOrder ++ [id] })

def registerEnumeration (s : Store) (m : ModuleId) (id : EnumId) : Bool × Store :=
  let name := ((s.enumeration? id).map (·.name)).getD ""
  if (s.module m).enumerations.contains name then (false, s)
  else
    let s := s.modifyEnumeration id fun e => { e with module? := some (s.module m).name }
    (true, s.modifyModule m fun x => { x with enumerations := x.enumerations.insert name id })

def registerAlias (s : Store) (m : ModuleId) (t : Ty) : Bool × Store :=
  if (s.module m).aliases.contains t.aliasName then (false, s)
  else (true, s.modifyModule m fun x =>
    { x with aliases := x.aliases.insert t.aliasName t })

/-- Registers an annotation as a new object that belongs to the module. -/
def registerAnnot (s : Store) (m : ModuleId) (a : Annot) : Bool × Store :=
  if (s.module m).annots.contains a.name then (false, s)
  else
    let (id, s) := s.addAnnot { a with module? := some (s.module m).name }
    (true, s.modifyModule m fun x => { x with annots := x.annots.insert a.name id })

def registerCall (s : Store) (m : ModuleId) (name : String) (factory : CallFactory) :
    Bool × Store :=
  if (s.module m).calls.contains name then (false, s)
  else (true, s.modifyModule m fun x => { x with calls := x.calls.insert name factory })

def registerRewriter (s : Store) (m : ModuleId) (id : RewriterId) : Store :=
  s.modifyModule m fun x => { x with rewriters := x.rewriters ++ [id] }

/-- Stamps functions one after the other and files each under its mangled name of that moment. -/
def restampFunctions (module : String) (s : Store) (filed : NameMap FunctionId) :
    List FunctionId → NameMap FunctionId × Store
  | [] => (filed, s)
  | id :: ids =>
    let (name, s) := s.stampFunction module id
    restampFunctions module s (filed.insert name id) ids

def restampAnnots (s : Store) (module : String) :
    List (String × AnnotId) → List (String × AnnotId) × Store
  | [] => ([], s)
  | (key, id) :: rest =>
    let (fresh, s) := s.addAnnot { (s.annot? id).getD default with module? := some module }
    let (rest, s) := s.restampAnnots module rest
    ((key, fresh) :: rest, s)

def refileFunctions (s : Store) (m : ModuleId) (module : String) : Store :=
  let (functions, s) := restampFunctions module s .empty (s.module m).functions.values
  s.modifyModule m fun x => { x with functions }

def refileGenerics (s : Store) (m : ModuleId) (module : String) : Store :=
  let (generics, s) := restampFunctions module s .empty (s.module m).generics.values
  s.modifyModule m fun x => { x with generics }

def stampDeclarations (s : Store) (m : ModuleId) (module : String) : Store :=
  let stamp := some module
  let s := (s.module m).structOrder.foldl
    (fun s id => s.modifyStruct id fun x => { x with module? := stamp }) s
  let s := (s.module m).enumerations.values.foldl
    (fun s id => s.modifyEnumeration id fun e => { e with module? := stamp }) s
  let s := (s.module m).globalOrder.foldl
    (fun s id => s.modifyVariable id fun v => { v with module? := stamp }) s
  let (annots, s) := s.restampAnnots module (s.module m).annots.toList
  s.modifyModule m fun x => { x with annots := .ofList annots }

/-- Renames a module. Functions are filed anew before the declarations that their argument types
name are stamped. -/
def renameModule (s : Store) (m : ModuleId) (name : String) : Store :=
  let s := s.modifyModule m fun x => { x with name }
  ((s.refileFunctions m name).refileGenerics m name).stampDeclarations m name

def unregisterVariable (s : Store) (m : ModuleId) (id : VarId) : Store :=
  let name := (s.var id).name
  s.modifyModule m fun x =>
    { x with
      globals := x.globals.erase name
      globalOrder := x.globalOrder.filter (· != id) }

def unregisterFunction (s : Store) (m : ModuleId) (name : String) : Store :=
  s.modifyModule m fun x => { x with functions := x.functions.erase name }

def unregisterGeneric (s : Store) (m : ModuleId) (name : String) : Store :=
  s.modifyModule m fun x => { x with generics := x.generics.erase name }

def replaceStruct (s : Store) (m : ModuleId) (old new : StructId) : Store :=
  let oldName := ((s.struct? old).map (·.name)).getD ""
  let newName := ((s.struct? new).map (·.name)).getD ""
  s.modifyModule m fun x =>
    { x with
      structs := (x.structs.erase oldName).insert newName new
      structOrder := x.structOrder.map fun id => if id = old then new else id }

def replaceEnumeration (s : Store) (m : ModuleId) (old new : EnumId) : Store :=
  let oldName := ((s.enumeration? old).map (·.name)).getD ""
  let newName := ((s.enumeration? new).map (·.name)).getD ""
  s.modifyModule m fun x =>
    { x with enumerations := (x.enumerations.erase oldName).insert newName new }

def unregisterEnumeration (s : Store) (m : ModuleId) (id : EnumId) : Store :=
  let name := ((s.enumeration? id).map (·.name)).getD ""
  s.modifyModule m fun x => { x with enumerations := x.enumerations.erase name }

end Store

namespace Module

def functionsNamed (m : Module) (s : Store) (name : String) : List FunctionId :=
  m.functions.values.filter fun id => ((s.function? id).map (·.name)) == some name

def genericsNamed (m : Module) (s : Store) (name : String) : List FunctionId :=
  m.generics.values.filter fun id => ((s.function? id).map (·.name)) == some name

end Module

end Frontend
