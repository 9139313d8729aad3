import Frontend.Total
import Frontend.Traversal.Visitor

/-!
# Walking a tree

`Visitor.visit` visits a node: its own hook, its children in their fixed order, and its own hook
again. A list erases what its visit removed, an optional place becomes empty, and a place that can't
be empty makes removal a fault. The type and the initializer of a declared variable are away from
the variable while they are visited.
-/

namespace Frontend

variable {σ : Type}

/-- Visits the elements of a list in order, with position and whether each is the last, and keeps
those that remain. -/
def visitEach {α : Type} (f : Nat → Bool → α → VisitM σ (Option α)) :
    Nat → List α → VisitM σ (List α)
  | _, [] => pure []
  | i, a :: as => do
    let b ← f i as.isEmpty a
    let bs ← visitEach f (i + 1) as
    return b.toList ++ bs

namespace Visitor

variable (v : Visitor σ)

def mapNested (visit : Ty → VisitM σ Ty) (t : Ty) : VisitM σ Ty := do
  let first ← t.first.mapM visit
  let second ← t.second.mapM visit
  let args ← t.args.mapM visit
  return { t with first, second, args }

/-- A type in its place, in at most `steps` levels: nested types between the two hooks. -/
def visitTypeIn : Nat → Ty → VisitM σ Ty
  | 0, _ => VisitM.fail .endless
  | steps + 1, t => do
    let t ← v.enterType t
    let t ← mapNested (visitTypeIn steps) t
    v.leaveType t

def visitType (t : Ty) : VisitM σ Ty := v.visitTypeIn (t.depth + v.weight) t

def visitTypeOption (t : Option Ty) : VisitM σ (Option Ty) := t.mapM v.visitType

def visitNestedTypes (t : Ty) : VisitM σ Ty := mapNested v.visitType t

/-- How a tree is visited: the visited tree, and what its parent is to do with it. -/
abbrev Child (σ : Type) := Expr → VisitM σ (Rewrite Expr × Expr)

variable (child : Child σ)

def required (e : Expr) : VisitM σ Expr := do
  let (r, e) ← child e
  match r.apply e with
  | some e => return e
  | none => VisitM.fail (.requiredChildRemoved e.nodeName)

def optional : Option Expr → VisitM σ (Option Expr)
  | none => pure none
  | some e => do
    let (r, e) ← child e
    return r.apply e

def requiredIn (slot : Slot) (e : Expr) : VisitM σ Expr := do
  v.enterSlot slot e
  required child e

/-- A child between the hooks of its place; the second one only runs for a child that is left. -/
def inSlot (slot : Slot) (e : Expr) : VisitM σ (Option Expr) := do
  v.enterSlot slot e
  let (r, e) ← child e
  match r.apply e with
  | none => return none
  | some e => return (← v.leaveSlot slot e).apply e

def inSlots (slot : Nat → Bool → Slot) (es : List Expr) : VisitM σ (List Expr) :=
  visitEach (fun i last e => v.inSlot child (slot i last) e) 0 es

def fields (slot : Nat → Bool → FieldSlot) (fs : List FieldInit) : VisitM σ (List FieldInit) :=
  visitEach (fun i last f => do
    v.enterField (slot i last) f
    let value ← required child f.value
    let f := { f with value }
    return (← v.leaveField (slot i last) f).apply f) 0 fs

def visitVariable (place : VariablePlace) (id : VarId) : VisitM σ Unit := do
  let type := ((← VisitM.store).var id).type
  VisitM.modifyStore (·.modifyVariable id fun x => { x with type := .blank })
  let type ← v.visitType type
  VisitM.modifyStore (·.modifyVariable id fun x => { x with type })
  match ((← VisitM.store).var id).init with
  | none => pure ()
  | some init =>
    VisitM.modifyStore (·.modifyVariable id fun x => { x with init := none })
    match ← v.inSlot child (.init place id) init with
    | none => pure ()
    | some init => VisitM.modifyStore (·.modifyVariable id fun x => { x with init := some init })

/-- One declared variable; loop iterators are told but not entered. -/
def declared (place : VariablePlace) (last : Bool) (id : VarId) : VisitM σ (Option VarId) := do
  v.enterVariable place id last
  if place ≠ .loop then v.visitVariable child place id
  return (← v.leaveVariable place id last).apply id

def removableVariables (place : VariablePlace) (ids : List VarId) : VisitM σ (List VarId) :=
  visitEach (fun _ last id => v.declared child place last id) 0 ids

def fixedVariables (place : VariablePlace) (ids : List VarId) : VisitM σ (List VarId) :=
  visitEach (fun _ last id => do
    match ← v.declared child place last id with
    | some id => return some id
    | none => VisitM.fail (.variableRemoved ((← VisitM.store).var id).name)) 0 ids

def finallySection (info : BlockInfo) (finalList : List Expr) : VisitM σ (List Expr) := do
  if finalList.isEmpty || info.finallyDisabled then return finalList
  v.notice .finallyBegin
  let finalList ← v.inSlots child (fun _ _ => .finalStatement) finalList
  v.notice .finallyEnd
  return finalList

def loopSource (last : Bool) (e : Expr) : VisitM σ (Option Expr) := do
  v.enterSlot (.loopSource last) e
  let e ← required child e
  match (← v.leaveSlot (.loopSource last) e).apply e with
  | some e => return some e
  | none => VisitM.fail .loopSourceRemoved

def row (i : Nat) (last : Bool) (fs : List FieldInit) : VisitM σ (Option (List FieldInit)) := do
  v.notice (.rowBegin i last)
  let fs ← v.fields child (fun _ last => .structField i last) fs
  v.notice (.rowEnd i last)
  return some fs

def walk : Node → VisitM σ Node
  | .label number comment => return .label number comment
  | .goto number target => return .goto number (← optional child target)
  | .convert mode value => return .convert mode (← required child value)
  | .address target function type =>
    return .address target function (← v.visitTypeOption type)
  | .nullCoalescing value default => do
    let value ← required child value
    return .nullCoalescing value (← v.requiredIn child .defaultValue default)
  | .looksLikeCall name kind args =>
    return .looksLikeCall name kind
      (← v.inSlots child (fun _ last => .looksLikeCallArg name last) args)
  | .call name args function =>
    return .call name (← v.inSlots child (fun _ last => .callArg name last) args) function
  | .namedCall name args =>
    return .namedCall name (← v.fields child (fun _ last => .namedCallArg name last) args)
  | .makeGenerator type args => do
    let type ← v.visitTypeOption type
    return .makeGenerator type
      (← v.inSlots child (fun _ last => .looksLikeCallArg "generator" last) args)
  | .new type args hasInitializer => do
    let type ← v.visitType type
    return .new type (← v.inSlots child (fun _ last => .newArg type last) args) hasInitializer
  | .yield value moves => return .yield (← required child value) moves
  | .makeBlock block isLambda isLocalFunction =>
    return .makeBlock (← required child block) isLambda isLocalFunction
  | .isType value type => do
    let value ← required child value
    v.notice (.isType type)
    return .isType value (← v.visitType type)
  | .typeInfo query value type => do
    let type ← v.visitTypeOption type
    return .typeInfo query (← optional child value) type
  | .delete value native => return .delete (← required child value) native
  | .cast value type upcast reinterpret => do
    let type ← v.visitType type
    return .cast (← required child value) type upcast reinterpret
  | .ascend value onStack needsTypeInfo =>
    return .ascend (← required child value) onStack needsTypeInfo
  | .index safe value index => do
    let value ← required child value
    return .index safe value (← v.requiredIn child (.index safe) index)
  | .block info list finalList => do
    let args ← v.removableVariables child .blockArg info.args
    let info := { info with args }
    if info.finallyBeforeBody then
      let finalList ← v.finallySection child info finalList
      return .block info (← v.inSlots child (fun _ _ => .statement) list) finalList
    else
      let list ← v.inSlots child (fun _ _ => .statement) list
      return .block info list (← v.finallySection child info finalList)
  | .swizzle mask value indices => return .swizzle mask (← required child value) indices
  | .field access name value field? element? derefsFreely =>
    return .field access name (← required child value) field? element? derefsFreely
  | .stringBuilder elements =>
    return .stringBuilder (← v.inSlots child (fun _ last => .stringElement last) elements)
  | .var ref => return .var ref
  | .op1 op value function => return .op1 op (← required child value) function
  | .op2 op left right function => do
    let left ← required child left
    return .op2 op left (← v.requiredIn child (.op2Right op) right) function
  | .op3 op value left right function => do
    let value ← required child value
    let left ← v.requiredIn child (.op3Left op) left
    return .op3 op value left (← v.requiredIn child (.op3Right op) right) function
  | .assign mode left right function => do
    let left ← required child left
    return .assign mode left (← v.requiredIn child (.assignRight mode) right) function
  | .sequence left right => do
    let left ← required child left
    return .sequence left (← v.requiredIn child .sequenceRight right)
  | .tryCatch body handler => do
    let body ← required child body
    return .tryCatch body (← v.requiredIn child .handler handler)
  | .ret value moves fromYield => return .ret (← optional child value) moves fromYield
  | .breakLoop => return .breakLoop
  | .continueLoop => return .continueLoop
  | .ifThenElse cond ifTrue ifFalse isStatic => do
    let cond ← required child cond
    if ← v.allows (.branches cond) then
      let ifTrue ← v.requiredIn child .ifBranch ifTrue
      match ifFalse with
      | none => return .ifThenElse cond ifTrue none isStatic
      | some e => do
        v.enterSlot .elseBranch e
        return .ifThenElse cond ifTrue (← optional child (some e)) isStatic
    else return .ifThenElse cond ifTrue ifFalse isStatic
  | .within value body => do
    let value ← required child value
    return .within value (← v.requiredIn child .withinBody body)
  | .whileLoop cond body => do
    let cond ← required child cond
    return .whileLoop cond (← v.requiredIn child .whileBody body)
  | .forEach names vars sources body => do
    let vars ← v.fixedVariables child .loop vars
    let sources ← visitEach (fun _ last e => v.loopSource child last e) 0 sources
    v.notice (.loopStack names)
    match body with
    | none => return .forEach names vars sources none
    | some body =>
      return .forEach names vars sources (some (← v.requiredIn child .loopBody body))
  | .declare vars inScope => return .declare (← v.removableVariables child .local vars) inScope
  | .makeStruct type rows useInitializer => do
    let type ← v.visitType type
    return .makeStruct type (← visitEach (v.row child) 0 rows) useInitializer
  | .makeVariant type fs => do
    let type ← v.visitType type
    return .makeVariant type (← v.fields child .variantField fs)
  | .makeArray type values => do
    let type ← v.visitType type
    return .makeArray type (← v.inSlots child .arrayValue values)
  | .makeTuple type values isKeyValue => do
    let type ← v.visitTypeOption type
    return .makeTuple type (← v.inSlots child .tupleValue values) isKeyValue
  | .comprehension source body filter isGenerator => do
    let source ← required child source
    let body ← v.requiredIn child .comprehensionBody body
    match filter with
    | none => return .comprehension source body none isGenerator
    | some e => do
      v.enterSlot .comprehensionFilter e
      return .comprehension source body (← optional child (some e)) isGenerator
  | .literal value => return .literal value

def visitIn : Nat → Child σ
  | 0, _ => VisitM.fail .endless
  | steps + 1, e => do
    let e ← v.enter e
    let node ← v.walk (visitIn steps) e.node
    let e := { e with node }
    let r ← v.leave e
    return (r, e)

end Visitor

def Store.initWeight (s : Store) : Nat :=
  total (fun x => (x.2.init.map Expr.weight).getD 0) s.vars.toList

namespace Visitor

variable (v : Visitor σ)

/-- Enough steps for a tree of the given weight: a path down passes each variable at most once, and
between two variables it stays in one tree. -/
def steps (s : Store) (weight : Nat) : Nat :=
  let longest := s.initWeight + v.weight + weight + 1
  longest * longest

def visit (e : Expr) : VisitM σ (Rewrite Expr × Expr) := do
  v.visitIn (v.steps (← VisitM.store) e.weight) e

end Visitor

end Frontend
