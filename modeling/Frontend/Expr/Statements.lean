import Frontend.Expr.Exits

/-!
# Statement lists

`Expr.inlineAll` flattens nested blocks that may be inlined, `Expr.reachable` drops what follows a
statement that always leaves, up to the next label, and `Expr.dropConstants` drops statements that
only compute a constant.
-/

namespace Frontend

namespace Expr

def isInlineable (e : Expr) : Bool :=
  match e.node with
  | .block info _ [] => info.isCollapseable
  | _ => false

mutual

def inlined : Expr → List Expr
  | ⟨span, type, flags, .block info list []⟩ =>
    if info.isCollapseable then inlineAll list else [⟨span, type, flags, .block info list []⟩]
  | e => [e]

def inlineAll : List Expr → List Expr
  | [] => []
  | e :: es => inlined e ++ inlineAll es

end

def isLabel (e : Expr) : Bool :=
  match e.node with
  | .label .. => true
  | _ => false

/-- The statements that stay when those after a leaving one go, up to the next label. While
`skipping`, the statements at the front are out of reach. -/
def reachable (leaves : Expr → Bool) : Bool → List Expr → List Expr
  | _, [] => []
  | skipping, e :: es =>
    if skipping && !e.isLabel then reachable leaves true es
    else e :: reachable leaves (leaves e) es

/-- The statements that do more than compute a constant; the last one may be the block's value. -/
def dropConstants (keepLast : Bool) : List Expr → List Expr
  | [] => []
  | [e] => if !e.isLiteral || keepLast then [e] else []
  | e :: es => if !e.isLiteral then e :: dropConstants keepLast es else dropConstants keepLast es

@[simp] theorem inlineAll_append (xs ys : List Expr) :
    inlineAll (xs ++ ys) = inlineAll xs ++ inlineAll ys := by
  induction xs with
  | nil => rfl
  | cons x xs ih => simp [inlineAll, ih]

end Expr

def BlockInfo.yieldsValue (info : BlockInfo) : Bool :=
  match info.returnType with
  | some type => !type.isVoid
  | none => false

namespace Expr

mutual

/-- Puts a statement behind `result`, or the statements of a block that may be inlined. Says whether
there was such a block. -/
def collapseOne : Array Expr → Expr → Bool × Array Expr
  | result, ⟨span, type, flags, .block info list []⟩ =>
    if info.isCollapseable then
      -- Whether the block inlined one itself does not matter.
      let (_, result) := collapseInto result list
      (true, result)
    else (false, result.push ⟨span, type, flags, .block info list []⟩)
  | result, e => (false, result.push e)

def collapseInto : Array Expr → List Expr → Bool × Array Expr
  | result, [] => (false, result)
  | result, e :: es =>
    let (isInlined, result) := collapseOne result e
    let (any, result) := collapseInto result es
    (isInlined || any, result)

end

/-- Inlines nested blocks in both statement lists of a block. Says whether anything changed. -/
def collapse? (e : Expr) : Option (Bool × Expr) :=
  match e.node with
  | .block info list finalList =>
    let (any, flat) := collapseInto #[] list
    let (anyFinal, flatFinal) := collapseInto #[] finalList
    some (any || anyFinal, { e with node := .block info flat.toList flatFinal.toList })
  | _ => none

/-- Moves a node out, with a null literal left in its place. -/
def taken (e : Expr) : Expr := null e.span

end Expr

namespace Store

def blockType (s : Store) (info : BlockInfo) (result : Option Ty) : Ty :=
  let result := (result <|> info.returnType).getD (.ofBase .void)
  { Ty.block result (info.args.map fun a => (s.var a).type) with isConst := true }

end Store

end Frontend
