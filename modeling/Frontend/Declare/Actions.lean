import Frontend.Declare.FieldCycle
import Frontend.Declare.Line
import Frontend.Program.Names

/-!
# Declaring

What a parser does as it comes by the declarations and expressions of a file. Problems are reported
to the program, and as much as possible of the declaration is kept; a declaration that can't be
registered answers with nothing.
-/

namespace Frontend

structure EntryLine where
  name : String
  value : Option Expr := none
  span : Span := .builtin
  deriving Inhabited

def Expr.sequenceList : Expr → List Expr
  | ⟨_, _, _, .sequence left right⟩ => left :: right.sequenceList
  | e => [e]

def Expr.mapArgs? (f : List Expr → List Expr) (e : Expr) : Option Expr :=
  match e.node with
  | .looksLikeCall name kind args => some { e with node := .looksLikeCall name kind (f args) }
  | .call name args function => some { e with node := .call name (f args) function }
  | _ => none

namespace Program

def reported (problem : Problem) (span : Span) : ProgramM Unit :=
  modify (·.reportAt problem span)

def findAnnotation (name : String) (span : Span) : ProgramM (Option AnnotId) := do
  let p ← get
  match p.findAnnots name with
  | [id] => return some id
  | [] =>
    reported (.annotNotFound name) span
    return none
  | ids =>
    reported (.annotAmbiguous name (p.store.annotNames ids)) span
    return none

/-- Applies annotations to a function one after the other, leaving out those that can't be. -/
def annotate : List AnnotUse → Function → ProgramM Function
  | [], f => return f
  | u :: us, f => do
    let a := ((← get).store.annot? u.annot).getD default
    if !a.isFunctionAnnot then
      reported (.invalidAnnot s!"`{a.name}` is not a function annotation" a.name) u.span
      annotate us f
    else match a.apply f u.arguments with
      | .ok f => annotate us { f with annots := f.annots ++ [u] }
      | .error reason =>
        modify (·.report (((Problem.invalidAnnot
          s!"can't apply annotation `{a.name}`" a.name).report u.span).withExtra reason))
        annotate us f

def makeFunction (span : Span) (name : String) (args : List Line) (result : Option Ty)
    (body : Expr) (annots : List AnnotUse) : ProgramM (Option FunctionId) := do
  let vars := firstOfName Variable.name [] (← takeLines args)
  for (v, previous) in vars.clashes do
    reported (.argumentAlreadyDeclared v.name name (some previous.span)) v.span
  let args ← addVariables vars.kept
  let f ← annotate annots { name, args, result := result.getD .auto, body := some body, span }
  let p ← get
  let generic := p.store.isGenericFunction f
  let (id, store) := p.store.addFunction f
  let (added, p) := { p with store }.register fun s m =>
    if generic then s.registerGeneric m id else s.registerFunction m id
  set p
  if added then return some id
  let mangled := ((p.store.function? id).map p.store.mangledFunction).getD ""
  let previous := if generic then
      (p.thisModule.generics.values.filterMap p.store.function?).find?
        (p.store.mangledFunction · == mangled)
    else (p.thisModule.functions.find? mangled).bind p.store.function?
  reported (.functionAlreadyDeclared mangled (previous.map (·.span))) span
  return none

def makeLet (span : Span) (inScope : Bool) (lines : List Line) : ProgramM Expr := do
  let vars := firstOfName Variable.name [] (← takeLines lines)
  for (v, previous) in vars.clashes do
    reported (.localVariableAlreadyDeclared v.name (some previous.span)) v.span
  return .ofNode span (.declare (← addVariables vars.kept) inScope)

def addGlobals (lines : List Line) : ProgramM Unit := do
  for v in ← takeLines lines do
    let p ← get
    let (id, store) := p.store.addVariable v
    let (added, p) := { p with store }.register fun s m => s.registerVariable m id
    set p
    if !added then
      let previous := (p.thisModule.globals.find? v.name).map fun g => (p.store.var g).span
      reported (.globalVariableAlreadyDeclared v.name previous) v.span

def makeEnumeration (span : Span) (name : String) (base : BaseType) (entries : List EntryLine) :
    ProgramM (Option EnumId) := do
  let lines := firstOfName EntryLine.name [] entries
  for (entry, _) in lines.clashes do
    reported (.enumerationValueAlreadyDeclared name entry.name) entry.span
  let e : Enumeration :=
    { name, base, entries := lines.kept.map fun x => (x.name, x.value), span }
  let p ← get
  let (id, store) := p.store.addEnumeration e.resolveValues
  let (added, p) := { p with store }.register fun s m => s.registerEnumeration m id
  set p
  if added then return some id
  let previous := (p.thisModule.enumerations.find? name).bind p.store.enumeration?
  reported (.enumerationAlreadyDeclared name (previous.map (·.span))) span
  return none

def addStruct (id : StructId) (x : Struct) : ProgramM Bool := do
  let (added, p) := (← get).register fun s m => s.registerStruct m id
  set p
  if !added then
    let previous := (p.thisModule.structs.find? x.name).bind p.store.struct?
    reported (.structureAlreadyDeclared x.name (previous.map (·.span))) x.span
  return added

def addHandle (id : StructId) (x : Struct) (u : AnnotUse) : ProgramM Bool := do
  let p ← get
  match (p.thisModule.annots.find? x.name).bind p.store.annot? with
  | some existing =>
    let previous := (existing.bound?.bind p.store.struct?).map (·.span)
    reported (.structureAlreadyDeclared x.name previous) x.span
    return false
  | none => addStructHandle id ((p.store.annot? u.annot).getD default) u.arguments

def checkStructAnnots (name : String) (annots : List AnnotUse) : ProgramM Bool := do
  let s := (← get).store
  let nameOf (u : AnnotUse) := ((s.annot? u.annot).map (·.name)).getD ""
  match annots with
  | _ :: second :: _ =>
    reported (.invalidAnnot s!"structure `{name}` can only have one annotation" (nameOf second))
      second.span
    return false
  | [u] =>
    if ((s.annot? u.annot).map (·.isStructAnnot)).getD false then return true
    let annot := nameOf u
    reported (.invalidAnnot s!"`{annot}` is not a structure annotation" annot) u.span
    return false
  | [] => return true

/-- The structure that a declaration starts from; a parent hands down its fields. -/
def startStruct (span : Span) (name : String) : Option StructId → ProgramM Struct
  | none => return { name, span }
  | some parent => do
    let p ← get
    match p.store.deriveStruct name parent span with
    | .error fault => throw fault
    | .ok (x, store) =>
      set { p with store }
      return x

/-- Registers a structure, as a handled type if it has an annotation that makes one. -/
def registerStruct (id : StructId) (x : Struct) : ProgramM Bool := do
  let s := (← get).store
  match x.annots.head?.filter fun u =>
      ((s.annot? u.annot).map (·.isStructTypeAnnot)).getD false with
  | some u => addHandle id x u
  | none => addStruct id x

/-- Declares a structure. One that contains itself is reported and stays. -/
def makeStruct (span : Span) (name : String) (parent : Option StructId) (lines : List Line)
    (annots : List AnnotUse) : ProgramM (Option StructId) := do
  let x ← startStruct span name parent
  let own := (← takeLines lines).map fun v =>
    ({ name := v.name, type := v.type, init := v.init, arguments := v.arguments
       moves := v.movesInit, span := v.span } : Field)
  let fields := firstOfName Field.name x.fields own
  for (f, previous) in fields.clashes do
    reported (.structureFieldAlreadyDeclared name f.name (some previous.span)) f.span
  if !(← checkStructAnnots name annots) then return none
  let x := { x with fields := fields.kept, annots }
  let p ← get
  let (id, store) := p.store.addStruct x
  set { p with store }
  if !(← registerStruct id x) then return none
  discard (checkFieldCycles id)
  return some id

def makeAlias (span : Span) (t : Ty) : ProgramM Bool := do
  let (added, p) := (← get).register fun s m => s.registerAlias m (t.withSpan span)
  set p
  if !added then reported (.typeAliasAlreadyDeclared t.aliasName) span
  return added

def makeEnumConstant (span : Span) (enumeration value : String) : ProgramM (Option Expr) := do
  let p ← get
  match p.findEnumerations enumeration with
  | [] =>
    reported (.enumerationNotFound enumeration) span
    return none
  | [id] =>
    let e := (p.store.enumeration? id).getD default
    if (e.entry? value).isNone then
      reported (.enumerationValueNotFound e.name value) span
      return none
    match p.store.enumType id with
    | .error fault => throw fault
    | .ok type =>
      return some ((Expr.ofNode span (.literal (.enumValue (some id) value))).withType type)
  | ids =>
    reported (.enumerationAmbiguous enumeration (p.store.enumerationNames ids)) span
    return none

def pipe (span : Span) (call : Expr) (f : List Expr → List Expr) : ProgramM Expr := do
  match call.mapArgs? f with
  | some call => return call
  | none =>
    reported .cantPipe span
    return call

def pipeLast (span : Span) (call argument : Expr) : ProgramM Expr :=
  pipe span call (· ++ [argument])

def pipeFirst (span : Span) (argument call : Expr) : ProgramM Expr :=
  pipe span call (argument :: ·)

end Program

end Frontend
