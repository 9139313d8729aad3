import Frontend.Fault
import Frontend.Traversal.Walk

/-!
# Deep copies

A copy of a tree has fresh variables for those declared in it, and names them wherever the copied
tree names the declared ones once they have been declared; variables from outside keep their links.
The initializer of a variable is copied before the variable counts as declared.
-/

namespace Frontend

/-- The state of a copy: the store that gets the fresh variables, and the pairs of a copied variable
and its fresh one, the most recent pair first. -/
structure Copying where
  store : Store
  renamed : List (VarId × VarId) := []

abbrev CopyM := StateT Copying (Except Fault)

namespace CopyM

def rename (id : VarId) : CopyM VarId := return ((← get).renamed.lookup id).getD id

/-- Puts a variable into the store as the copy of another. -/
def declare (id : VarId) (v : Variable) : CopyM VarId :=
  modifyGet fun c =>
    let (fresh, store) := c.store.addVariable v
    (fresh, ⟨store, (id, fresh) :: c.renamed⟩)

end CopyM

/-- A fresh variable for a declared one; the copy belongs to no module. -/
def copyVariable (copy : Expr → CopyM Expr) (id : VarId) : CopyM VarId := do
  let v := (← get).store.var id
  let init ← v.init.mapM copy
  CopyM.declare id { v with init, module? := none }

def copyField (copy : Expr → CopyM Expr) (f : FieldInit) : CopyM FieldInit :=
  return { f with value := ← copy f.value }

/-- The copy of a node, given how children are copied. Declared variables come first. -/
def copyNode (copy : Expr → CopyM Expr) : Node → CopyM Node
  | .label number comment => return .label number comment
  | .goto number target => return .goto number (← target.mapM copy)
  | .convert mode value => return .convert mode (← copy value)
  | .address target function type => return .address target function type
  | .nullCoalescing value default => return .nullCoalescing (← copy value) (← copy default)
  | .looksLikeCall name kind args => return .looksLikeCall name kind (← args.mapM copy)
  | .call name args function => return .call name (← args.mapM copy) function
  | .namedCall name args => return .namedCall name (← args.mapM (copyField copy))
  | .makeGenerator type args => return .makeGenerator type (← args.mapM copy)
  | .new type args hasInitializer => return .new type (← args.mapM copy) hasInitializer
  | .yield value moves => return .yield (← copy value) moves
  | .makeBlock block isLambda isLocalFunction =>
    return .makeBlock (← copy block) isLambda isLocalFunction
  | .isType value type => return .isType (← copy value) type
  | .typeInfo query value type => return .typeInfo query (← value.mapM copy) type
  | .delete value native => return .delete (← copy value) native
  | .cast value type upcast reinterpret => return .cast (← copy value) type upcast reinterpret
  | .ascend value onStack needsTypeInfo => return .ascend (← copy value) onStack needsTypeInfo
  | .index safe value index => return .index safe (← copy value) (← copy index)
  | .block info list finalList => do
    let args ← info.args.mapM (copyVariable copy)
    return .block { info with args } (← list.mapM copy) (← finalList.mapM copy)
  | .swizzle mask value indices => return .swizzle mask (← copy value) indices
  | .field access name value field? element? derefsFreely =>
    return .field access name (← copy value) field? element? derefsFreely
  | .stringBuilder elements => return .stringBuilder (← elements.mapM copy)
  | .var ref => return .var { ref with var? := ← ref.var?.mapM CopyM.rename }
  | .op1 op value function => return .op1 op (← copy value) function
  | .op2 op left right function => return .op2 op (← copy left) (← copy right) function
  | .op3 op value left right function =>
    return .op3 op (← copy value) (← copy left) (← copy right) function
  | .assign mode left right function =>
    return .assign mode (← copy left) (← copy right) function
  | .sequence left right => return .sequence (← copy left) (← copy right)
  | .tryCatch body handler => return .tryCatch (← copy body) (← copy handler)
  | .ret value moves fromYield => return .ret (← value.mapM copy) moves fromYield
  | .breakLoop => return .breakLoop
  | .continueLoop => return .continueLoop
  | .ifThenElse cond ifTrue ifFalse isStatic =>
    return .ifThenElse (← copy cond) (← copy ifTrue) (← ifFalse.mapM copy) isStatic
  | .within value body => return .within (← copy value) (← copy body)
  | .whileLoop cond body => return .whileLoop (← copy cond) (← copy body)
  | .forEach names vars sources body => do
    let vars ← vars.mapM (copyVariable copy)
    return .forEach names vars (← sources.mapM copy) (← body.mapM copy)
  | .declare vars inScope => return .declare (← vars.mapM (copyVariable copy)) inScope
  | .makeStruct type rows useInitializer =>
    return .makeStruct type (← rows.mapM (·.mapM (copyField copy))) useInitializer
  | .makeVariant type fields => return .makeVariant type (← fields.mapM (copyField copy))
  | .makeArray type values => return .makeArray type (← values.mapM copy)
  | .makeTuple type values isKeyValue => return .makeTuple type (← values.mapM copy) isKeyValue
  | .comprehension source body filter isGenerator =>
    return .comprehension (← copy source) (← copy body) (← filter.mapM copy) isGenerator
  | .literal value => return .literal value

def copyIn : Nat → Expr → CopyM Expr
  | 0, _ => throw .endless
  | steps + 1, e => return { e with node := ← copyNode (copyIn steps) e.node }

/-- Enough steps for a tree: a path down passes each variable at most once. -/
def Store.copySteps (s : Store) (weight : Nat) : Nat := s.initWeight + weight + 1

namespace Store

/-- A deep copy of a tree, with its fresh variables in the store. -/
def copyExpr (s : Store) (e : Expr) : Except Fault (Expr × Store) := do
  let (e, c) ← (copyIn (s.copySteps e.weight) e).run ⟨s, []⟩
  return (e, c.store)

/-- Copies of some variables that may name each other. -/
def copyVariables (s : Store) (ids : List VarId) : Except Fault (List VarId × Store) := do
  let (ids, c) ← (ids.mapM (copyVariable (copyIn (s.copySteps 0)))).run ⟨s, []⟩
  return (ids, c.store)

def copyFunction (s : Store) (f : Function) : Except Fault (Function × Store) := do
  let copy := copyIn (s.copySteps ((f.body.map Expr.weight).getD 0))
  let run : CopyM Function := do
    let args ← f.args.mapM (copyVariable copy)
    let body ← f.body.mapM copy
    return { f with args, body, module? := none }
  let (f, c) ← run.run ⟨s, []⟩
  return (f, c.store)

def copyOption (s : Store) : Option Expr → Except Fault (Option Expr × Store)
  | none => .ok (none, s)
  | some e => do
    let (e, s) ← s.copyExpr e
    return (some e, s)

def copyFields (s : Store) : List Field → Except Fault (List Field × Store)
  | [] => .ok ([], s)
  | f :: fs => do
    let (init, s) ← s.copyOption f.init
    let (fs, s) ← s.copyFields fs
    return ({ f with init } :: fs, s)

/-- A structure that has the fields of a parent, as copies. -/
def deriveStruct (s : Store) (name : String) (parent : StructId) (span : Span) :
    Except Fault (Struct × Store) := do
  let (fields, s) ← s.copyFields (((s.struct? parent).map (·.fields)).getD [])
  return ({ name, fields, span, parent? := some parent }, s)

end Store

end Frontend
