import Frontend.Constant.Fold
import Frontend.Constant.Text
import Frontend.Expr.Statements

/-!
# Rewrite rules of the optimizer

Each rule looks at one node whose children have been rewritten already, and answers with what takes
its place, or with nothing if it does not apply.
-/

namespace Frontend

/-- Reads of literals, and references that go through a pointer and back. -/
def Expr.cancelReference? (e : Expr) : Option Expr :=
  match e.node with
  | .convert .refToValue value => if value.isLiteral then some value else none
  | .convert .pointerToRef { node := .convert .refToPointer value, .. } => some value
  | .convert .refToPointer { node := .convert .pointerToRef value, .. } => some value
  | _ => none

def Expr.literalText? : List Expr → Option String
  | [] => some ""
  | e :: es => do
    let front ← match e.node with
      | .literal (.string text) => some text
      | .literal (.const c) => c.interpolated?
      | _ => none
    return front ++ (← literalText? es)

def Expr.cleanBlock? (e : Expr) : Option Expr :=
  match e.node with
  | .block info list finalList =>
    let cleanList := dropConstants info.yieldsValue list
    let cleanFinal := dropConstants false finalList
    if cleanList.length = list.length ∧ cleanFinal.length = finalList.length then none
    else some { e with node := .block info cleanList cleanFinal }
  | _ => none

/-- The value that a node takes from a condition known ahead of time. -/
def condition? (e : Expr) : Option Bool := e.const?.bind Constant.asBool?

namespace Store

/-- Whether an operator means what the language says: it has no function, or a native one. -/
def isBuiltinOperator (s : Store) : Option FunctionId → Bool
  | none => true
  | some id => ((s.function? id).map (·.isBuiltin)).getD false

def foldConstant? (s : Store) (e : Expr) : Option Expr :=
  match e.node with
  | .op1 op value function =>
    if s.isBuiltinOperator function then do
      return .const e.span (← (← value.const?).fold1 op)
    else none
  | .op2 op left right function =>
    if s.isBuiltinOperator function then do
      return .const e.span (← (← left.const?).fold2 op (← right.const?))
    else none
  | .stringBuilder elements => (Expr.literalText? elements).map (.string e.span)
  | _ => none

def chooseBranch? (s : Store) (e : Expr) : Option Expr :=
  match e.node with
  | .ifThenElse cond ifTrue ifFalse _ =>
    (condition? cond).map fun b => if b then ifTrue else ifFalse.getD (.emptyBlock e.span)
  | .whileLoop cond _ => if condition? cond = some false then some (.emptyBlock e.span) else none
  | .op3 _ value left right function =>
    if s.isBuiltinOperator function then (condition? value).map fun b => if b then left else right
    else none
  | _ => none

/-- Inlines the blocks in a block and drops its statements out of reach. -/
def tidyBlock? (s : Store) (e : Expr) : Option Expr :=
  match e.node with
  | .block info list finalList =>
    let flatList := Expr.inlineAll list
    let flatFinal := Expr.inlineAll finalList
    let tidyList := Expr.reachable s.alwaysLeaves false flatList
    let tidyFinal := Expr.reachable s.alwaysLeaves false flatFinal
    if list.any Expr.isInlineable || finalList.any Expr.isInlineable ||
        tidyList.length != flatList.length || tidyFinal.length != flatFinal.length then
      some { e with node := .block info tidyList tidyFinal }
    else none
  | _ => none

end Store

end Frontend
