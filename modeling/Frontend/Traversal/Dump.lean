import Frontend.Decl.Text
import Frontend.Expr.Copy
import Frontend.Sexp
import Frontend.Text.Quoted

/-!
# Dumps

The s-expression of a tree is built by a visitor: a node opens a list on the way down, and closes it
into the list of its parent on the way up. The list starts with the kind of the node and what there
is to say about it besides its children. Declarations are dumped around the trees they hold.
-/

namespace Frontend

/-- The lists that are open, innermost first, and the finished tree. -/
structure DumpState where
  opened : List Sexp := []
  root : Option Sexp := none

namespace DumpState

/-- Closes the innermost list into the one around it. -/
def close (d : DumpState) : Except Fault DumpState :=
  match d.opened with
  | [] => .error .unopenedNode
  | [node] => .ok ⟨[], some node⟩
  | node :: parent :: rest => .ok ⟨parent.push node :: rest, d.root⟩

end DumpState

namespace Store

private def variableLabel (s : Store) (id : VarId) : Sexp :=
  .ofAtoms [(s.var id).name, s.typeText (s.var id).type]

def labelDetails (s : Store) : Node → List Sexp
  | .var ref => [.atom ref.name]
  | .call name _ _ => [.atom name]
  | .looksLikeCall name _ _ => [.atom name]
  | .namedCall name args => .atom name :: args.map fun f => .ofAtoms ["=", f.name]
  | .op1 op _ _ => [.atom op]
  | .op2 op _ _ _ => [.atom op]
  | .op3 op _ _ _ _ => [.atom op]
  | .field .field name _ _ _ _ => [.atom name]
  | .address target _ _ => [.atom target]
  | .label number _ => [.atom (toString number.toInt)]
  | .goto number _ => [.atom (toString number.toInt)]
  | .declare vars _ => vars.map s.variableLabel
  | .forEach names _ _ _ => names.map .atom
  | .literal (.const c) => [.atom c.text]
  | .literal (.string text) => [.atom (quoted text)]
  | .literal (.enumValue _ name) => [.atom name]
  | _ => []

def nodeLabel (s : Store) (e : Expr) : Sexp :=
  .list (.atom (String.ofList (e.nodeName.toList.drop 4)) :: s.labelDetails e.node)

end Store

def dumper : Visitor DumpState where
  enter e := do
    let label := (← VisitM.store).nodeLabel e
    VisitM.modifyUser fun d => { d with opened := label :: d.opened }
    return e
  leave _ := do
    match (← VisitM.user).close with
    | .ok d => VisitM.modifyUser fun _ => d
    | .error fault => VisitM.fail fault
    return .keep

namespace Store

/-- The s-expression of a tree. A copy is visited, so that nothing changes. -/
def exprSexp (s : Store) (e : Expr) : Except Fault Sexp := do
  let (copy, s) ← s.copyExpr e
  let (_, final) ← (dumper.visit copy).run ⟨s, {}⟩
  return final.user.root.getD (.list [])

def pushExpr (s : Store) (sexp : Sexp) : Option Expr → Except Fault Sexp
  | none => .ok sexp
  | some e => return sexp.push (← s.exprSexp e)

def variableSexp (s : Store) (v : Variable) : Except Fault Sexp :=
  s.pushExpr (.ofAtoms [v.name, s.typeText v.type]) v.init

def functionSexp (s : Store) (f : Function) : Except Fault Sexp := do
  let args ← f.args.mapM fun a => s.variableSexp (s.var a)
  s.pushExpr (.list [.atom "def", .atom f.name, .list args, .atom (s.typeText f.result)]) f.body

def structSexp (s : Store) (x : Struct) : Except Fault Sexp := do
  let parent := (x.parent?.bind s.struct?).map fun p => Sexp.ofAtoms [":", p.name]
  let fields ← x.fields.mapM fun f =>
    s.pushExpr (.ofAtoms [f.name, s.typeText f.type]) f.init
  return .list ([.atom "struct", .atom x.name] ++ parent.toList ++ fields)

def enumerationSexp (s : Store) (e : Enumeration) : Except Fault Sexp := do
  let entries ← e.entries.mapM fun x => s.pushExpr (.ofAtoms [x.1]) x.2
  return .list ([.atom "enum", .atom e.name, .atom e.base.name] ++ entries)

def dumpWidth : Nat := 100

def exprText (s : Store) (e : Expr) : Except Fault String :=
  return (← s.exprSexp e).pretty dumpWidth

def moduleSexp (s : Store) (m : Module) : Except Fault Sexp := do
  let enumerations ← (m.enumerations.values.filterMap s.enumeration?).mapM s.enumerationSexp
  let structs ← (m.structOrder.filterMap s.struct?).mapM s.structSexp
  let aliases := m.aliases.values.map fun t =>
    Sexp.ofAtoms ["typedef", t.aliasName, s.typeText t]
  let globals ← m.globalOrder.mapM fun g => s.variableSexp (s.var g)
  let functions ← (m.functions.values.filterMap s.function?).mapM s.functionSexp
  return .list ([.atom "program", .atom (quoted m.name)] ++ enumerations ++ structs ++ aliases ++
    globals ++ functions)

end Store

end Frontend
