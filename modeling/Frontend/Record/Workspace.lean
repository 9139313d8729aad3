import Frontend.Program.Basic
import Frontend.Record.Values

/-!
# Workspaces

A workspace is a program with objects that are kept by name, each kind with names of its own, so
that records can refer to them. What a workspace keeps stays alive.
-/

namespace Frontend

inductive Kept where
  | module (id : ModuleId)
  | struct (id : StructId)
  | enum (id : EnumId)
  | annot (id : AnnotId)
  | func (id : FunctionId)
  | var (id : VarId)
  | expr (e : Expr)
  | rewriter (id : RewriterId)

namespace Kept

def kind : Kept → String
  | module _ => "module"
  | struct _ => "structure"
  | enum _ => "enumeration"
  | annot _ => "annotation"
  | func _ => "function"
  | var _ => "variable"
  | expr _ => "expr"
  | rewriter _ => "macro"

def holdings : Kept → Holdings
  | module id => { modules := [id] }
  | struct id => { structs := [id] }
  | enum id => { enumerations := [id] }
  | annot id => { annots := [id] }
  | func id => { functions := [id] }
  | var id => { vars := [id] }
  | expr e => .ofExpr e
  | rewriter id => { rewriters := [id] }

end Kept

structure Workspace where
  program : Program := .new
  /-- The kept objects, under kind and name. -/
  kept : NameMap Kept := .empty
  /-- Variables without a name that the output so far has numbered. -/
  numbered : List VarId := []
  /-- The store before the work at hand began. -/
  before : Store := {}
  deriving Inhabited

/-- Why work on a workspace ends early. -/
inductive Refusal where
  | fault (fault : Fault)
  /-- A record that can't be read. -/
  | unreadable (message : String)

abbrev WorkM := StateT Workspace (Except Refusal)

namespace WorkM

def unreadable {α : Type} (message : String) : WorkM α := throw (.unreadable message)

def ofExcept {α : Type} : Except Fault α → WorkM α
  | .ok a => return a
  | .error fault => throw (.fault fault)

def store : WorkM Store := return (← get).program.store

def act {α : Type} (action : ProgramM α) : WorkM α := do
  let (a, program) ← ofExcept (action.run (← get).program)
  modify fun w => { w with program }
  return a

def onStore {α : Type} (f : Store → α × Store) : WorkM α :=
  modifyGet fun w =>
    let (a, store) := f w.program.store
    (a, { w with program := { w.program with store } })

def update (f : Store → Store) : WorkM Unit := onStore fun s => ((), f s)

def tryStore {α : Type} (f : Store → Except Fault (α × Store)) : WorkM α := do
  let (a, s) ← ofExcept (f (← store))
  update fun _ => s
  return a

/-! ### Names -/

/-- A name may be written behind an at sign. -/
def plainName (name : String) : String :=
  match name.toList with
  | '@' :: rest => .ofList rest
  | _ => name

private def keptKey (kind name : String) : String := kind ++ " " ++ plainName name

def find (kind name : String) : WorkM Kept := do
  match (← get).kept.find? (keptKey kind name) with
  | some o => return o
  | none => unreadable s!"unknown {kind} {name}"

def keepAs (name : String) (o : Kept) : WorkM Unit :=
  modify fun w => { w with kept := w.kept.insert (keptKey o.kind name) o }

def drop (kind name : String) : WorkM Unit :=
  modify fun w => { w with kept := w.kept.erase (keptKey kind name) }

def namesOf (kind : String) (p : Kept → Bool) : WorkM (List String) := do
  return (← get).kept.toList.filterMap fun (key, o) =>
    if o.kind == kind && p o then some (.ofList (key.toList.drop (kind.length + 1))) else none

def findStruct (name : String) : WorkM StructId := do
  match ← find "structure" name with
  | .struct id => return id
  | o => unreadable o.kind

def findEnum (name : String) : WorkM EnumId := do
  match ← find "enumeration" name with
  | .enum id => return id
  | o => unreadable o.kind

def findAnnot (name : String) : WorkM AnnotId := do
  match ← find "annotation" name with
  | .annot id => return id
  | o => unreadable o.kind

def findFunction (name : String) : WorkM FunctionId := do
  match ← find "function" name with
  | .func id => return id
  | o => unreadable o.kind

def findVariable (name : String) : WorkM VarId := do
  match ← find "variable" name with
  | .var id => return id
  | o => unreadable o.kind

def findExpr (name : String) : WorkM Expr := do
  match ← find "expr" name with
  | .expr e => return e
  | o => unreadable o.kind

/-- A module by its name; the program's own is `this`. -/
def findModule (name : String) : WorkM ModuleId := do
  if name == "this" then return (← get).program.this
  match ← find "module" name with
  | .module id => return id
  | o => unreadable o.kind

end WorkM

namespace Workspace

def held (w : Workspace) : Holdings := .join (w.kept.values.map Kept.holdings)

private def since {kind : ObjectKind} {α : Type} (old new : Table kind α) : List (Id kind) :=
  (List.range' old.slots.size (new.slots.size - old.slots.size)).map fun i => ⟨i⟩

/-- Objects made since the work at hand began. -/
def made (w : Workspace) : Holdings :=
  let old := w.before
  let new := w.program.store
  { functions := since old.functions new.functions
    structs := since old.structs new.structs
    enumerations := since old.enumerations new.enumerations
    annots := since old.annots new.annots
    vars := since old.vars new.vars
    modules := since old.modules new.modules
    rewriters := since old.rewriters new.rewriters }

def start (w : Workspace) : Workspace := { w with before := w.program.store, numbered := [] }

/-- Keeps alive what the work at hand has made. -/
def pin (w : Workspace) : Workspace :=
  { w with program := { w.program with outside := w.held ++ w.made } }

/-- Ends a piece of work: what nothing owns is dropped. -/
def finish (w : Workspace) : Workspace :=
  { w with program := { w.program with outside := w.held }.collect }

end Workspace

end Frontend
