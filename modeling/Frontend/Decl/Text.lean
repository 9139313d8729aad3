import Frontend.Constant.Text
import Frontend.Text.Letter
import Frontend.Text.Quoted
import Frontend.Ty.Text

/-!
# Names and descriptions of declarations

The mangled name of a declaration tells it from every other of its kind, the description is what
messages show. Both are read off the store, because they name the types of arguments and the
declarations behind them.
-/

namespace Frontend

namespace Store

/-- The name behind the module, followed by the mangled types of the arguments. -/
def mangledFunction (s : Store) (f : Function) : String :=
  let name := match f.module? with
    | some module => if module.isEmpty then f.name else "@" ++ module ++ "::" ++ f.name
    | none => f.name
  name ++ String.join (f.args.map fun a => " " ++ s.mangledType (s.var a).type)

def mangledVariable (s : Store) (v : Variable) : String :=
  qualified v.module? v.name ++ " " ++ s.mangledType v.type

def annotUseText (s : Store) (u : AnnotUse) : String :=
  "[" ++ ((s.annot? u.annot).map (·.mangledName)).getD "" ++
    (if u.arguments.isEmpty then "" else "(" ++ u.arguments.text ++ ")") ++ "]"

def isOperatorName (name : String) : Bool :=
  match name.toList.head? with
  | some c => !isLetter c && c != '_' && c != '`'
  | none => false

def describeFunction (s : Store) (f : Function) : String :=
  let args := f.args.map fun a => (s.var a).name ++ " : " ++ s.typeText (s.var a).type
  (if isOperatorName f.name then "operator " else "") ++ f.name ++
    (if args.isEmpty then "" else " ( " ++ "; ".intercalate args ++ " )") ++
    " : " ++ s.typeText f.result

def instantiationText (s : Store) (f : Function) : String :=
  if f.inferStack.isEmpty then ""
  else
    "\nwhile compiling " ++ s.describeFunction f ++ "\n" ++
      String.join (f.inferStack.map fun step =>
        "instanced from " ++
          ((step.function.bind s.function?).map s.describeFunction).getD "???" ++
          " at " ++ step.span.text ++ "\n")

/-- A function is generic if one of its annotations says so, or if an argument without a default has
a type that is still to be inferred. -/
def isGenericFunction (s : Store) (f : Function) : Bool :=
  f.annots.any (fun u => ((s.annot? u.annot).map (·.isGeneric)).getD false) ||
    f.args.any fun a => (s.var a).type.isAuto && (s.var a).init.isNone

def describeCandidate (s : Store) (f : Function) : String :=
  qualified f.module? (s.describeFunction f)

def describeAlias (s : Store) (t : Ty) : String := t.aliasName ++ " = " ++ s.typeText t

private def describeCall (s : Store) (name : String) (args : List Expr) : String :=
  name ++ " ( " ++
    ", ".intercalate (args.map fun e => (e.type.map s.typeText).getD "???") ++ " )"

def describe (s : Store) (e : Expr) : String :=
  match e.node with
  | .op1 op value _ => s.describeCall op [value]
  | .op2 op left right _ => s.describeCall op [left, right]
  | .op3 op value left right _ => s.describeCall op [value, left, right]
  | .looksLikeCall name _ args => s.describeCall name args
  | .call name args _ => s.describeCall name args
  | .var ref => ref.name
  | .literal (.const c) => c.text
  | .literal (.string text) => "\"" ++ text ++ "\""
  | _ => e.nodeName

end Store

def Module.namesText (m : Module) : String :=
  let names (keys : List String) := "[" ++ ", ".intercalate (keys.map quoted) ++ "]"
  let parts := [("name", quoted m.name), ("builtin", if m.isBuiltin then "true" else "false"),
    ("functions", names m.functions.keys), ("generics", names m.generics.keys),
    ("structures", names m.structs.keys), ("enumerations", names m.enumerations.keys),
    ("globals", names m.globals.keys), ("annotations", names m.annots.keys),
    ("aliases", names m.aliases.keys), ("calls", names m.calls.keys)]
  "Module \x7b " ++ ", ".intercalate (parts.map fun p => p.1 ++ ": " ++ p.2) ++ " \x7d"

end Frontend
