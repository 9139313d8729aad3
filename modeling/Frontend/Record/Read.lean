import Frontend.Declare.Line
import Frontend.Record.Format
import Frontend.Record.Workspace
import Frontend.Script.Basic

/-!
# Reading trees and declarations

A record is read into a workspace: declared variables and declarations become objects of its store,
and names of kept objects become links to them. Parts are read in their fixed order, so a variable
can be named by what follows it, and by its own initializer.
-/

namespace Frontend.Record

open WorkM

def required (r : Record) (key : String) : WorkM Record :=
  match r.get? key with
  | some v => return v
  | none => unreadable s!"missing {key}"

/-! ### Types -/

private def baseOfType (r : Record) : WorkM Ty := do
  match r.text? "struct", r.text? "enum", r.text? "annotation" with
  | some name, _, _ => return .struct (← findStruct name)
  | _, some name, _ => do ofExcept ((← store).enumType (← findEnum name))
  | _, _, some name => return .handle (← findAnnot name)
  | _, _, _ => return .ofBase (baseNamed (r.string "b"))

/-- A type, given how nested types are read; a text is the name of a base type. -/
def readTypeWith (read : Record → WorkM Ty) (r : Record) : WorkM Ty := do
  match r with
  | text name => return .ofBase (baseNamed name)
  | r =>
    let base ← baseOfType r
    let first ← (r.get? "first").mapM read
    let second ← (r.get? "second").mapM read
    let args ← (r.elementsOf "args").mapM read
    let has (qualifier : String) := (r.textsOf "q").contains qualifier
    return { base with
      first, second, args
      argNames := r.textsOf "names"
      dims := (r.elementsOf "dim").map fun d => Int32.ofInt d.asInt
      aliasName := r.string "alias"
      isConst := has "const"
      isRefFlag := has "ref"
      isTemporary := has "temp"
      isImplicit := has "implicit"
      dropsConst := has "-const"
      dropsRef := has "-ref"
      dropsDims := has "-dim"
      span := r.span }

def readTypeIn : Nat → Record → WorkM Ty
  | 0, _ => unreadable "nested too deeply"
  | depth + 1, r => readTypeWith (readTypeIn depth) r

def readType (r : Record) : WorkM Ty := readTypeIn r.depth r

def typeAt? (r : Record) (key : String) : WorkM (Option Ty) := (r.get? key).mapM readType

/-- A type that is inferred if it is missing. -/
def typeAt (r : Record) (key : String) : WorkM Ty := return (← r.typeAt? key).getD .auto

def readUses (r : Record) (key : String) : WorkM (List AnnotUse) :=
  (r.elementsOf key).mapM fun u => do
    return { annot := ← findAnnot (u.string "annotation"), arguments := u.argumentsOf "args"
             span := u.span }

/-! ### Trees -/

/-- A named value stands at its value if it has no place of its own. -/
def readFieldWith (read : Record → WorkM Expr) (r : Record) : WorkM FieldInit := do
  let value ← read (← r.required "value")
  return ⟨r.string "name", value, r.flag "move", ((r.get? "at").map asSpan).getD value.span⟩

def readVariableWith (read : Record → WorkM Expr) (r : Record) : WorkM VarId := do
  match r with
  | text name => findVariable name
  | r =>
    let has (flag : String) := (r.textsOf "flags").contains flag
    let v : Variable := {
      name := r.string "name"
      type := ← r.typeAt "type"
      span := r.span
      accessGet := has "get"
      accessInit := has "init"
      accessPass := has "pass"
      accessRef := has "ref"
      movesInit := has "move"
      used := has "used"
      isPrivate := has "private"
      stackSize := (r.nat? "stack").getD 0
      arguments := r.argumentsOf "annotation" }
    let id ← onStore (·.addVariable v)
    (r.text? "id").forM fun name => keepAs name (.var id)
    let init ← (r.get? "init").mapM read
    update (·.modifyVariable id fun v => { v with init })
    return id

def readPart (read : Record → WorkM Expr) (r : Record) (key : String) : Part → WorkM Part
  | .text _ => return .text (r.string key)
  | .texts _ => return .texts (r.textsOf key)
  | .flag _ => return .flag (r.flag key)
  | .int x => return .int (.ofInt (r.intOr key x.toInt))
  | .index _ => return .index (r.nat? key)
  | .bytes _ => return .bytes ((r.elementsOf key).map fun x => UInt8.ofNat x.asNat)
  | .callKind _ =>
    return .callKind (((callKindNames.find? (·.2 == r.string key)).map (·.1)).getD .generic)
  | .type _ => return .type (← r.typeAt key)
  | .optionType _ => return .optionType (← r.typeAt? key)
  | .tree _ => return .tree (← read (← r.required key))
  | .optionTree _ => return .optionTree (← (r.get? key).mapM read)
  | .trees _ => return .trees (← (r.elementsOf key).mapM read)
  | .fields _ => return .fields (← (r.elementsOf key).mapM (readFieldWith read))
  | .rows _ =>
    return .rows (← (r.elementsOf key).mapM fun row => row.elements.mapM (readFieldWith read))
  | .vars _ => return .vars (← (r.elementsOf key).mapM (readVariableWith read))
  | .varLink _ => return .varLink (← (r.text? key).mapM findVariable)
  | .functionLink _ => return .functionLink (← (r.text? key).mapM findFunction)
  | .enumLink _ => return .enumLink (some (← findEnum (r.string key)))
  | .annots _ => return .annots (← r.readUses key)
  | .constant _ =>
    match (r.get? key).bind asConstant? with
    | some c => return .constant c
    | none => unreadable "not a constant"

/-- A node. A call without a name has that of its function, and a link to a variable names it. -/
def readNode (read : Record → WorkM Expr) (r : Record) : WorkM Node := do
  let kind := r.string "k"
  match Node.samples.find? (·.recordKind == kind) with
  | none => unreadable s!"unknown kind {kind}"
  | some sample =>
    let parts ← (sample.parts.zip sample.partNames).mapM fun p => r.readPart read p.2 p.1
    let s ← store
    match sample.withParts? parts with
    | some (.var ref) =>
      return .var { ref with name := (ref.var?.map fun v => (s.var v).name).getD ref.name }
    | some (.call name args function) =>
      let name := if r.has "name" then name
        else ((function.bind s.function?).map (·.name)).getD ""
      return .call name args function
    | some node => return node
    | none => unreadable s!"not a {kind}"

/-- A tree, given how trees below it are read. A use of a kept tree is a copy of it. -/
def readExprWith (read : Record → WorkM Expr) (r : Record) : WorkM Expr := do
  let e ← if r.string "k" == "Use" then do
      let e ← findExpr (r.string "name")
      tryStore (·.copyExpr e)
    else match ← r.readNode read with
      | .literal (.const c) => pure (.const r.span c)
      | .literal (.string s) => pure (.string r.span s)
      | node => pure (.ofNode r.span node)
  let type ← match r.given? "type" with
    | none => pure e.type
    | some null => pure none
    | some t => do pure (some (← readType t))
  return { e with type, genFlags := ((r.nat? "gen").map UInt32.ofNat).getD e.genFlags }

def readExprIn : Nat → Record → WorkM Expr
  | 0, _ => unreadable "nested too deeply"
  | depth + 1, r => readExprWith (readExprIn depth) r

def readExpr (r : Record) : WorkM Expr := readExprIn r.depth r

def exprAt (r : Record) (key : String) : WorkM Expr := do readExpr (← r.required key)

def exprAt? (r : Record) (key : String) : WorkM (Option Expr) := (r.get? key).mapM readExpr

def readVariable (r : Record) : WorkM VarId := readVariableWith readExpr r

/-! ### Declarations -/

private def readInferStep (r : Record) : WorkM InferStep := do
  let function ← (r.elements[1]?.bind asText?).mapM findFunction
  return { span := (r.elements.head?.map asSpan).getD .builtin, function }

def readFunction (r : Record) : WorkM FunctionId := do
  let has (flag : String) := (r.textsOf "flags").contains flag
  let args ← (r.elementsOf "args").mapM readVariable
  let result ← r.typeAt "result"
  let body ← r.exprAt? "body"
  let annots ← r.readUses "annotations"
  let inferStack ← (r.elementsOf "infer_stack").mapM readInferStep
  let f : Function := if r.flag "native" then .native (r.string "name") args result
    else { name := r.string "name", args, result, span := r.span }
  let f := { f with
    body, annots, inferStack
    isBuiltin := f.isBuiltin || has "builtin"
    exports := has "exports"
    isInit := has "init"
    isLateInit := has "late_init"
    used := has "used"
    isPrivate := has "private"
    isGenerated := has "generated"
    isUnsafeOperation := has "unsafe" }
  onStore (·.addFunction (match r.nat? "side_effects" with
    | some bits => f.withSideEffects (.ofNat bits)
    | none => f))

def readStructField (r : Record) : WorkM Field := do
  return { name := r.string "name", type := ← r.typeAt "type", init := ← r.exprAt? "init"
           arguments := r.argumentsOf "annotation", moves := r.flag "move", span := r.span }

def readStruct (r : Record) : WorkM StructId := do
  let x : Struct ← match r.text? "parent" with
    | none => pure { name := r.string "name", span := r.span }
    | some parent => do
      let parent ← findStruct parent
      tryStore (·.deriveStruct (r.string "name") parent r.span)
  let fields ← (r.elementsOf "fields").mapM readStructField
  let annots ← r.readUses "annotations"
  onStore (·.addStruct { x with
    fields := x.fields ++ fields, annots
    cppLayout := r.flag "cpp_layout", cppLayoutPod := r.flag "cpp_layout_pod" })

def readEnumeration (r : Record) : WorkM EnumId := do
  let entries ← (r.elementsOf "values").mapM fun x => do
    let value ← (x.elements[1]?.filter (!·.isNull)).mapM readExpr
    return ((x.elements.head?.bind asText?).getD "", value)
  onStore (·.addEnumeration
    { name := r.string "name", base := baseNamed (r.textOr "base" "int"), entries, span := r.span })

def readAnnot (r : Record) : WorkM AnnotId := do
  let kind : AnnotKind ← match r.string "kind" with
    | "function" => pure (.function false)
    | "generic_function" => pure (.function true)
    | "structure" => pure .struct
    | "handled" =>
      pure (.handled ((r.nat? "size").getD 0) ((r.nat? "align").getD 0) (r.flag "pod")
        (r.flag "ref_type"))
    | "structure_type" => pure (.structType (r.flag "requires_pod") none)
    | kind => unreadable s!"unknown kind {kind}"
  onStore (·.addAnnot { name := r.string "name", kind })

def readKept (r : Record) (kind : String) : WorkM Kept := do
  match kind, ← r.required kind with
  | kind, text name => find kind name
  | "function", r => return .func (← readFunction r)
  | "structure", r => return .struct (← readStruct r)
  | "enumeration", r => return .enum (← readEnumeration r)
  | "annotation", r => return .annot (← readAnnot r)
  | "variable", r => return .var (← readVariable r)
  | "expr", r => return .expr (← readExpr r)
  | kind, _ => unreadable s!"no record for {kind}"

/-- A declaration line; a name without a place stands where the line does. -/
def readLine (r : Record) : WorkM Line := do
  let names := (r.elementsOf "names").map fun n =>
    match n with
    | list [text name, place] => (name, place.asSpan)
    | n => (n.asText?.getD "", r.span)
  return { names, type := ← r.typeAt? "type", init := ← r.exprAt? "init", moves := r.flag "move"
           span := r.span, arguments := r.argumentsOf "annotation" }

def readLines (r : Record) (key : String) : WorkM (List Line) := (r.elementsOf key).mapM readLine

/-! ### Scripts -/

private def readAction (r : Record) : WorkM RuleAction := do
  if r.flag "remove" then return .remove
  if r.has "expr" then return .expr (← r.exprAt "expr")
  if r.has "field" then return .field (← readFieldWith readExpr (← r.required "field"))
  if r.has "type" then return .type (← r.typeAt "type")
  match ["variable", "function", "structure", "enumeration"].find? r.has with
  | none => unreadable "a rule without an action"
  | some kind =>
    match ← r.readKept kind with
    | .var id => return .var id
    | .func id => return .function id
    | .struct id => return .struct id
    | .enum id => return .enumeration id
    | _ => unreadable "a rule without an action"

def readScript (r : Record) : WorkM Script := do
  let rules ← (r.elementsOf "rules").mapM fun rule => do
    return ({ hook := rule.string "hook", subject? := rule.text? "on", limit? := rule.nat? "times"
              action := ← readAction rule } : Rule)
  return { isGeneric := r.string "mode" == "generic", only := r.textsOf "only"
           skip := r.textsOf "skip", refuse := r.textsOf "refuse", rules }

end Frontend.Record
