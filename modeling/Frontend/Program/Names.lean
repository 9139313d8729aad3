import Frontend.Program.Basic

/-!
# Resolving names of a program

A type name is a structure, a handled type, an enumeration or an alias, and otherwise stands for a
type that is declared later; a name with several meanings is reported. A call whose name a module
has a factory for becomes the factory's node.
-/

namespace Frontend.Program

private def refuse (problem : Problem) (span : Span) : ProgramM (Option Ty) := do
  modify (·.reportAt problem span)
  return none

def makeType (span : Span) (name : String) : ProgramM (Option Ty) := do
  let p ← get
  let s := p.store
  let structs := p.findStructs name
  let handles := p.findAnnots name
  let enums := p.findEnumerations name
  let aliases := p.findAliases name
  let categories := [!structs.isEmpty, !handles.isEmpty, !enums.isEmpty, !aliases.isEmpty]
  if 1 < categories.count true then
    refuse (.ambiguousTypeName name (s.structNames structs ++ s.annotNames handles ++
      s.enumerationNames enums ++ aliases.map s.describeAlias)) span
  else match structs, handles, enums, aliases with
    | [id], _, _, _ => return some ((Ty.struct id).withSpan span)
    | _ :: _, _, _, _ => refuse (.structureAmbiguous name (s.structNames structs)) span
    | [], [id], _, _ =>
      if ((s.annot? id).map (·.isTypeAnnot)).getD false then
        return some ((Ty.handle id).withSpan span)
      else refuse (.notAHandledType name) span
    | [], _ :: _, _, _ => refuse (.handleAmbiguous name (s.annotNames handles)) span
    | [], [], [id], _ => return some ((← s.enumType id).withSpan span)
    | [], [], _ :: _, _ => refuse (.enumerationAmbiguous name (s.enumerationNames enums)) span
    | [], [], [], [t] => return some (t.withSpan span)
    | [], [], [], _ :: _ => refuse (.aliasAmbiguous name (aliases.map s.describeAlias)) span
    | [], [], [], [] => return some ((Ty.ofAlias name).withSpan span)

/-- The factories that a call by a possibly qualified name chooses from. -/
def callFactories (p : Program) (name : String) : List CallFactory :=
  let (module, plain) := splitName name
  (p.store.modulesNamed p.library (module.getD "*")).flatMap fun m =>
    ((p.store.module m).calls.find? plain).toList

def makeCall (p : Program) (span : Span) (name : String) : Expr × Program :=
  match p.callFactories name with
  | [] => (.ofNode span (.call name [] none), p)
  | [factory] => (factory.make span, p)
  | _ => (.ofNode span (.call name [] none), p.reportAt (.callAmbiguous name) span)

/-- Turns a structure into a handled type: the bound annotation is registered under the name of the
structure. -/
def addStructHandle (id : StructId) (a : Annot) (arguments : Arguments) : ProgramM Bool := do
  let p ← get
  let span := ((p.store.struct? id).map (·.span)).getD .builtin
  if !a.isStructTypeAnnot then
    modify (·.reportAt (.invalidAnnot s!"not a structure annotation {a.name}" a.name) span)
    return false
  match ← p.store.bindAnnot a id arguments with
  | .ok bound =>
    let (added, p) := p.register fun s m => s.registerAnnot m bound
    set p
    return added
  | .error reason =>
    modify (·.report (((Problem.invalidAnnot
      s!"can't create structure handle {a.name}" a.name).report span).withExtra reason))
    return false

end Frontend.Program
