import Frontend.Diagnostic
import Frontend.Library
import Frontend.Store.Ownership
import Frontend.Ty.Copying

/-!
# Programs

A program is a unit of compilation: a store of declarations, the modules it sees, one of which gets
its own declarations, settings, and the errors reported so far. Errors do not stop the work; a
program has failed once there is one.
-/

namespace Frontend

structure Policies where
  /-- Stack size of a context, in bytes. -/
  stack : UInt32 := 16384
  /-- Bound on the rounds of the optimizer, if there is one. -/
  maxPasses? : Option Nat := some 1000
  optimize : Bool := true
  failOnLackOfAot : Bool := false
  deriving DecidableEq, Repr, Inhabited

structure Program where
  store : Store
  library : Library
  /-- The module that new declarations are added to. -/
  this : ModuleId
  policies : Policies := {}
  options : Arguments := .empty
  errors : List CompileError := []
  /-- Whether an error has been reported. -/
  hasFailed : Bool := false
  /-- What the surroundings of the program hold. -/
  outside : Holdings := {}
  deriving Inhabited

abbrev ProgramM := StateT Program (Except Fault)

namespace Program

def new : Program :=
  let (builtin, store) := Store.addBuiltinModule {}
  let (this, store) := store.addModule { name := "" }
  { store, library := [builtin, this], this }

def failed (p : Program) : Bool := p.hasFailed

def report (p : Program) (e : CompileError) : Program :=
  { p with errors := p.errors ++ [e], hasFailed := true }

def reportAt (p : Program) (problem : Problem) (span : Span) : Program :=
  p.report (problem.report span)

def reportMessage (p : Program) (message extra fixme : String) (span : Span) (kind : ErrorKind) :
    Program :=
  p.report ((((CompileError.ofMessage kind message).withExtra extra).withFixme fixme).withLocation
    span)

def thisModule (p : Program) : Module := p.store.module p.this

/-- Drops what nothing owns any more. -/
def collect (p : Program) : Program :=
  { p with store := p.store.collect ({ modules := p.library } ++ p.outside) }

/-- Stack size of the contexts that run the program; the option `stack` overrides the policy. -/
def stackSize (p : Program) : Nat :=
  (p.options.getInt "stack" p.policies.stack.toInt32).toInt.toNat

/-- Makes a module visible unless its name is taken. -/
def addModule (p : Program) (m : ModuleId) : Bool × Program :=
  if (p.store.findModule? p.library (p.store.module m).name).isSome then (false, p)
  else (true, { p with library := p.library ++ [m] })

def setModuleName (p : Program) (name : String) : Program :=
  { p with store := p.store.renameModule p.this name }

def requireModule (p : Program) (span : Span) (name : String) : Option ModuleId × Program :=
  match p.store.findModule? p.library name with
  | some m => (some m, p)
  | none => (none, p.reportAt (.moduleNotFound name) span)

def register (p : Program) (add : Store → ModuleId → Bool × Store) : Bool × Program :=
  let (added, store) := add p.store p.this
  (added, { p with store })

def findStructs (p : Program) (name : String) : List StructId :=
  p.store.findStructs p.library (some p.this) name

def findEnumerations (p : Program) (name : String) : List EnumId :=
  p.store.findEnumerations p.library (some p.this) name

def findAnnots (p : Program) (name : String) : List AnnotId :=
  p.store.findAnnots p.library (some p.this) name

def findAliases (p : Program) (name : String) : List Ty :=
  p.store.findAliases p.library (some p.this) name

end Program

namespace Store

/-- The type of an enumeration; its storage type must be an integer of at most 32 bits. -/
def enumType (s : Store) (id : EnumId) : Except Fault Ty :=
  match s.enumeration? id with
  | none => .error (.enumStorage .none)
  | some e =>
    match e.storage? with
    | some base => .ok { base, enum? := some id }
    | none => .error (.enumStorage e.base)

/-- The value of an entry of an enumeration, or a default for an unknown name. -/
def enumValue (e : Enumeration) (name : String) (default : Int64) : Except Fault Int64 :=
  match e.entry? name with
  | none => .ok default
  | some value =>
    match value.bind Expr.int64? with
    | some x => .ok x
    | none => .error .valueNotFolded

/-- A constant of a type: the entry of an enumeration with that value, or the converted number. -/
def makeConst? (s : Store) (span : Span) (type : Ty) (c : Constant) : Option Expr :=
  match type.enum?.filter s.enumerations.isAlive with
  | some id => do
    let value ← c.asInt64?
    let e ← s.enumeration? id
    let name ← e.nameOf? value
    if name.isEmpty then none
    else some ((Expr.ofNode span (.literal (.enumValue (some id) name))).withType type)
  | none => (c.convert? type.base).map fun c => (Expr.const span c).withType type

def bindAnnot (s : Store) (a : Annot) (id : StructId) (arguments : Arguments) :
    Except Fault (Except String Annot) :=
  match a.kind with
  | .structType requiresPod _ => do
    let requiresPod := requiresPod || arguments.getBool "pod" false
    let name := ((s.struct? id).map (·.name)).getD ""
    let pod ← if requiresPod then s.structCopy .pod id else pure true
    if pod then return .ok { name, kind := .structType requiresPod (some id) }
    else return .error s!"structure {name} is not plain data"
  | _ => return .error s!"{a.name} is not a structure type annotation"

end Store

end Frontend
