import Frontend.Traversal.Whole

/-!
# Validity of a program

The last check of a finished program: links to functions that are gone, field positions that a
structure does not have and, if asked for, nodes without a type.
-/

namespace Frontend

inductive Defect where
  | untyped (node : String) (span : Span)
  | deadLink (node name : String) (span : Span)
  | fieldOutOfRange (name : String) (span : Span) (index : Nat) (struct : String) (size : Nat)
  deriving DecidableEq, Repr

def Defect.message : Defect → String
  | untyped node span => s!"{node} at {span.text} has no type"
  | deadLink node name span =>
    s!"{node} `{name}` at {span.text} refers to a function that no longer exists"
  | fieldOutOfRange name span index struct size =>
    s!"field `{name}` at {span.text} has index {index}, but `{struct}` has {size} fields"

/-- The function link of a call, an address or an operator, with the name it is shown by. -/
def Node.link? : Node → Option (String × FunctionId)
  | .call name _ function => function.map (name, ·)
  | .address target function _ => function.map (target, ·)
  | .op1 op _ function => function.map (op, ·)
  | .op2 op _ _ function => function.map (op, ·)
  | .op3 op _ _ _ function => function.map (op, ·)
  | _ => none

namespace Store

def accessedStruct? (s : Store) (type : Ty) : Option Struct :=
  match type.base with
  | .pointer => (type.first.bind (·.struct?)).bind s.struct?
  | _ => type.struct?.bind s.struct?

def defects (s : Store) (requireTypes : Bool) (e : Expr) : List Defect :=
  let untyped :=
    if requireTypes && e.type.isNone then [Defect.untyped e.nodeName e.span] else []
  let dead := match e.node.link? with
    | some (name, id) =>
      if s.functions.isAlive id then [] else [Defect.deadLink e.nodeName name e.span]
    | none => []
  let field := match e.node with
    | .field .field name value (some index) _ _ =>
      match value.type.bind s.accessedStruct? with
      | some x =>
        if index < x.fields.length then []
        else [Defect.fieldOutOfRange name e.span index x.name x.fields.length]
      | none => []
    | _ => []
  untyped ++ dead ++ field

end Store

def defectCollector (requireTypes : Bool) : Visitor (List Defect) where
  leave e := do
    let defects := (← VisitM.store).defects requireTypes e
    VisitM.modifyUser (· ++ defects)
    return .keep

/-- What is wrong with a program, in the order in which a walk comes by. -/
def Program.defects (requireTypes : Bool) : ProgramM (List Defect) :=
  walk (defectCollector requireTypes) [] true

end Frontend
