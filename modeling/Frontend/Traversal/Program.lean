import Frontend.Store.Registry
import Frontend.Traversal.Walk

/-!
# Walking a program

The declarations of a module in their fixed order: enumerations, structures, aliases, globals,
generics if asked for, and functions. The list of each category is taken before its first visit, and
rewrites of whole declarations change the module as the walk goes on. What is being visited inside a
declaration is away from it.
-/

namespace Frontend.Visitor

variable {σ : Type} (v : Visitor σ)

def weightOf (e : Option Expr) : Nat := (e.map Expr.weight).getD 0

def child (weight : Nat) : VisitM σ (Child σ) := do
  let steps := v.steps (← VisitM.store) weight
  return v.visitIn steps

def visitEnumeration (id : EnumId) : VisitM σ (Rewrite EnumId) := do
  let e := ((← VisitM.store).enumeration? id).getD default
  v.notice (.enumBegin e.name)
  VisitM.modifyStore (·.modifyEnumeration id fun e => { e with entries := [] })
  let child ← v.child (total (fun x => weightOf x.2) e.entries)
  let entries ← visitEach (fun _ last (x : String × Option Expr) => do
    v.notice (.enumValueBegin e.name x.1 x.2 last)
    match x.2 with
    | none => return some x
    | some value =>
      let (r, value) ← child value
      match r.apply value with
      | none => return some (x.1, none)
      | some value =>
        return some (x.1, (← v.leaveSlot (.enumValue e.name x.1 last) value).apply value)) 0
    e.entries
  VisitM.modifyStore (·.modifyEnumeration id fun e => { e with entries })
  v.leaveEnum id

def visitStruct (id : StructId) : VisitM σ (Rewrite StructId) := do
  let x := ((← VisitM.store).struct? id).getD default
  v.notice (.structBegin x.name)
  VisitM.modifyStore (·.modifyStruct id fun x => { x with fields := [] })
  let child ← v.child (total (fun f => weightOf f.init) x.fields)
  let entersInits ← v.allows (.fieldInits x.name)
  let fields ← visitEach (fun _ last (f : Field) => do
    v.notice (.structFieldBegin x.name f.name last)
    let type ← v.visitType f.type
    let init ← if entersInits then optional child f.init else pure f.init
    v.notice (.structFieldEnd x.name f.name last)
    return some { f with type, init }) 0 x.fields
  VisitM.modifyStore (·.modifyStruct id fun x => { x with fields })
  v.leaveStruct id

def visitFunctionBody (name : String) (id : FunctionId) : VisitM σ (Rewrite FunctionId) := do
  let result := (((← VisitM.store).function? id).getD default).result
  VisitM.modifyStore (·.modifyFunction id fun f => { f with result := .blank })
  let result ← v.visitType result
  VisitM.modifyStore (·.modifyFunction id fun f => { f with result })
  let body := (((← VisitM.store).function? id).getD default).body
  VisitM.modifyStore (·.modifyFunction id fun f => { f with body := none })
  match body with
  | none => pure ()
  | some body =>
    v.enterSlot (.functionBody name) body
    let body ← required (← v.child body.weight) body
    match (← v.leaveSlot (.functionBody name) body).apply body with
    | none => VisitM.fail (.bodyRemoved name)
    | some body => VisitM.modifyStore (·.modifyFunction id fun f => { f with body := some body })
  v.leaveFunction id

def visitFunction (id : FunctionId) : VisitM σ (Rewrite FunctionId) := do
  let f := ((← VisitM.store).function? id).getD default
  v.notice (.functionBegin f.name)
  let args ← v.fixedVariables (← v.child (weightOf f.body)) (.argument f.name) f.args
  VisitM.modifyStore (·.modifyFunction id fun f => { f with args })
  v.visitFunctionBody f.name id

/-- Adds a replacement where the replaced declaration has been taken out. -/
def refile (add : Store → Bool × Store) (what against : String) : VisitM σ Unit := do
  let (added, store) := add (← VisitM.store)
  if added then VisitM.modifyStore fun _ => store
  else VisitM.fail (.replacementClash what against)

def visitEnumerations (m : ModuleId) : VisitM σ Unit := do
  for id in ((← VisitM.store).module m).enumerations.values do
    match ← v.visitEnumeration id with
    | .keep => pure ()
    | .replace new => VisitM.modifyStore (·.replaceEnumeration m id new)
    | .remove => VisitM.modifyStore (·.unregisterEnumeration m id)

def visitStructs (m : ModuleId) : VisitM σ Unit := do
  for id in ((← VisitM.store).module m).structOrder do
    match ← v.visitStruct id with
    | .keep => pure ()
    | .replace new => VisitM.modifyStore (·.replaceStruct m id new)
    | .remove =>
      VisitM.fail (.structureRemoved ((((← VisitM.store).struct? id).map (·.name)).getD ""))

def visitAliases (m : ModuleId) : VisitM σ Unit := do
  let aliases := ((← VisitM.store).module m).aliases
  VisitM.modifyStore (·.modifyModule m fun x => { x with aliases := .empty })
  let entries ← aliases.toList.mapM fun e => return (e.1, ← v.visitType e.2)
  VisitM.modifyStore (·.modifyModule m fun x => { x with aliases := .ofList entries })

def visitGlobals (m : ModuleId) : VisitM σ Unit := do
  for id in ((← VisitM.store).module m).globalOrder do
    v.enterVariable .global id false
    v.visitVariable (← v.child 0) .global id
    match ← v.leaveVariable .global id false with
    | .keep => pure ()
    | .replace new =>
      VisitM.modifyStore (·.unregisterVariable m id)
      refile (·.registerVariable m new) "global" "global"
    | .remove => VisitM.modifyStore (·.unregisterVariable m id)

def isNative (s : Store) (id : FunctionId) : Bool :=
  ((s.function? id).map (·.isBuiltin)).getD false

def visitGenerics (m : ModuleId) : VisitM σ Unit := do
  for (name, id) in ((← VisitM.store).module m).generics.toList do
    if isNative (← VisitM.store) id then continue
    match ← v.visitFunction id with
    | .keep => pure ()
    | .replace new =>
      VisitM.modifyStore (·.unregisterGeneric m name)
      refile (·.registerGeneric m new) "generic" "generic"
    | .remove => VisitM.modifyStore (·.unregisterGeneric m name)

def visitFunctions (m : ModuleId) : VisitM σ Unit := do
  for (name, id) in ((← VisitM.store).module m).functions.toList do
    if isNative (← VisitM.store) id then continue
    if !(← v.allows (.function (((← VisitM.store).function? id).getD default).name)) then continue
    match ← v.visitFunction id with
    | .keep => pure ()
    | .replace new =>
      VisitM.modifyStore (·.unregisterFunction m name)
      refile (·.registerFunction m new) "function" "overload"
    | .remove => VisitM.modifyStore (·.unregisterFunction m name)

def visitModule (m : ModuleId) (withGenerics : Bool) : VisitM σ Unit := do
  let name := ((← VisitM.store).module m).name
  v.notice (.programBegin name)
  v.visitEnumerations m
  v.visitStructs m
  v.visitAliases m
  v.notice (.programBodyBegin name)
  v.notice (.globalsBegin name)
  v.visitGlobals m
  v.notice (.globalsEnd name)
  if withGenerics then v.visitGenerics m
  v.visitFunctions m
  v.notice (.programEnd name)

end Frontend.Visitor
