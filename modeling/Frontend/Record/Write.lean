import Frontend.Expr.Copy
import Frontend.Record.Format
import Frontend.Record.Workspace

/-!
# Writing trees and declarations

Objects of a workspace as records. A kept object is referred to by its name behind an at sign, any
other variable by a number in the order in which the output comes by them.
-/

namespace Frontend.Record

open WorkM

def orNull {α : Type} (write : α → WorkM Record) (a : Option α) : WorkM Record :=
  return (← a.mapM write).getD null

def writeType (t : Ty) : WorkM Record := do
  let s ← store
  return ofMembers [[("d", text (s.typeText t)), ("m", text (s.mangledType t))],
    optional "alias" (text t.aliasName), optional "at" (ofSpan t.span)]

/-- How a variable is referred to; the first mention gives it its number. -/
def variableRef (id : VarId) : WorkM String := do
  match ← namesOf "variable" fun | .var v => v == id | _ => false with
  | name :: _ => return "@" ++ name
  | [] =>
    let w ← get
    match w.numbered.findIdx? (· == id) with
    | some i => return s!"#{i}"
    | none =>
      set { w with numbered := w.numbered ++ [id] }
      return s!"#{w.numbered.length}"

def functionRef (id : FunctionId) : WorkM String := do
  let s ← store
  match s.function? id, ← namesOf "function" fun | .func f => f == id | _ => false with
  | none, _ => return "dead"
  | some _, name :: _ => return "@" ++ name
  | some f, [] => return s.mangledFunction f

def writeUses (uses : List AnnotUse) : WorkM Record := do
  return ofTexts (uses.map (← store).annotUseText)

/-! ### Trees -/

def writeField (write : Expr → WorkM Record) (f : FieldInit) : WorkM Record := do
  return ofMembers [[("name", text f.name), ("value", ← write f.value)],
    optional "move" (bool f.moves), optional "at" (ofSpan f.span)]

def writeVariableWith (write : Expr → WorkM Record) (id : VarId) : WorkM Record := do
  let s ← store
  let v := s.var id
  let ref ← variableRef id
  let init ← orNull write v.init
  let flags := ofFlags [("get", v.accessGet), ("init", v.accessInit), ("pass", v.accessPass),
    ("ref", v.accessRef), ("unused", v.isAccessUnused), ("move", v.movesInit), ("used", v.used),
    ("private", v.isPrivate)]
  return ofMembers [[("name", text v.name), ("ref", text ref), ("m", text (s.mangledVariable v)),
      ("type", ← writeType v.type), ("flags", flags)],
    optional "init" init, optional "at" (ofSpan v.span),
    optional "module" (ofOption text v.module?),
    if v.stackSize = 0 then [] else [("stack", ofNat v.stackSize)],
    optional "annotation" (ofArguments v.arguments)]

def writePart (write : Expr → WorkM Record) : Part → WorkM Record
  | .text s => return text s
  | .texts xs => return ofTexts xs
  | .flag b => return bool b
  | .int x => return int x.toInt
  | .index i => return ofOption ofNat i
  | .bytes xs => return list (xs.map fun x => ofNat x.toNat)
  | .callKind k => return ofOption text (callKindNames.lookup k)
  | .type t => writeType t
  | .optionType t => orNull writeType t
  | .tree e => write e
  | .optionTree e => orNull write e
  | .trees es => return list (← es.mapM write)
  | .fields fs => return list (← fs.mapM (writeField write))
  | .rows rs => return list (← rs.mapM fun fs => return list (← fs.mapM (writeField write)))
  | .vars ids => return list (← ids.mapM (writeVariableWith write))
  | .varLink id => return ofOption text (← id.mapM variableRef)
  | .functionLink id => return ofOption text (← id.mapM functionRef)
  | .enumLink id => do
    let s ← store
    return text (((id.bind s.enumeration?).map (·.mangledName)).getD "dead")
  | .annots uses => writeUses uses
  | .constant c => return ofConstant c

def fixedMembers : Node → Members
  | .makeGenerator .. => [("name", text "generator"), ("kind", text "generic")]
  | .assign mode .. => [("op", text mode.op)]
  | _ => []

def writeNode (write : Expr → WorkM Record) (n : Node) : WorkM Members := do
  let parts ← (n.parts.zip n.partNames).mapM fun (part, key) => do
    match ← writePart write part with
    | null | bool false => return []
    | value => return if n.leavesOut key then optional key value else [(key, value)]
  return ("k", text n.recordKind) :: fixedMembers n ++ parts.flatten

def writeExprWith (write : Expr → WorkM Record) (e : Expr) : WorkM Record := do
  let members ← writeNode write e.node
  return ofMembers [members, optional "at" (ofSpan e.span),
    optional "type" (← orNull writeType e.type),
    if e.genFlags = 0 then [] else [("gen", ofNat e.genFlags.toNat)]]

def writeIn : Nat → Expr → WorkM Record
  | 0, _ => throw (.fault .endless)
  | steps + 1, e => writeExprWith (writeIn steps) e

/-- A tree with the initializers of the variables declared in it. -/
def writeExpr (e : Expr) : WorkM Record := do writeIn ((← store).copySteps e.weight) e

def writeVariable (id : VarId) : WorkM Record := writeVariableWith writeExpr id

def writeExprs (es : List Expr) : WorkM Record := return list (← es.mapM writeExpr)

/-! ### Declarations -/

def writeFunction (id : FunctionId) : WorkM Record := do
  let s ← store
  let f := (s.function? id).getD default
  let args ← f.args.mapM writeVariable
  let body ← orNull writeExpr f.body
  let flags := ofFlags [("builtin", f.isBuiltin), ("exports", f.exports), ("init", f.isInit),
    ("late_init", f.isLateInit), ("used", f.used), ("private", f.isPrivate),
    ("generated", f.isGenerated), ("unsafe", f.isUnsafeOperation),
    ("generic", s.isGenericFunction f)]
  return ofMembers [[("name", text f.name), ("m", text (s.mangledFunction f)),
      ("describe", text (s.describeFunction f)), ("args", list args),
      ("result", ← writeType f.result), ("flags", flags),
      ("side_effects", ofNat f.sideEffects.toNat)],
    optional "body" body, optional "annotations" (← writeUses f.annots),
    optional "module" (ofOption text f.module?),
    optional "location_extra" (text (s.instantiationText f)), optional "at" (ofSpan f.span)]

def copyFlags (ask : CopyQuery → Except Fault Bool) : WorkM (List (String × Bool)) :=
  [("pod", CopyQuery.pod), ("copy", .copy), ("move", .move), ("clone", .clone)].mapM fun q => do
    return (q.1, ← ofExcept (ask q.2))

private def writeStructField (f : Field) : WorkM Record := do
  return ofMembers [[("name", text f.name), ("type", ← writeType f.type)],
    optional "init" (← orNull writeExpr f.init), optional "annotation" (ofArguments f.arguments),
    optional "move" (bool f.moves), optional "at" (ofSpan f.span)]

def writeStruct (withLayout : Bool) (id : StructId) : WorkM Record := do
  let s ← store
  let x := (s.struct? id).getD default
  let fields ← x.fields.mapM writeStructField
  let flags := ofFlags [("cpp_layout", x.cppLayout), ("cpp_layout_pod", x.cppLayoutPod),
    ("gen_ctor", x.genCtor), ("generated", x.isGenerated)]
  let layout : Members ← if withLayout then do
      pure [("size", ofNat (← ofExcept (s.structSize id))),
        ("align", ofNat (← ofExcept (s.structAlign id))),
        ("is", ofFlags (← copyFlags (s.structCopy · id)))]
    else pure []
  return ofMembers [[("name", text x.name), ("m", text x.mangledName), ("fields", list fields)],
    optional "parent" (ofOption text ((x.parent?.bind s.struct?).map (·.name))),
    optional "annotations" (← writeUses x.annots), optional "module" (ofOption text x.module?),
    optional "flags" flags, optional "initializers" (bool x.hasInitializers),
    optional "at" (ofSpan x.span), layout]

def writeEnumeration (id : EnumId) : WorkM Record := do
  let e := ((← store).enumeration? id).getD default
  let values ← e.entries.mapM fun x => return list [text x.1, ← orNull writeExpr x.2]
  return ofMembers [[("name", text e.name), ("m", text e.mangledName), ("base", text e.base.name),
      ("values", list values)],
    optional "external" (bool e.isExternal), optional "module" (ofOption text e.module?),
    optional "at" (ofSpan e.span)]

def writeAnnot (id : AnnotId) : WorkM Record := do
  let s ← store
  let a := (s.annot? id).getD default
  let kinds := ofFlags [("function", a.isFunctionAnnot), ("generic", a.isGeneric),
    ("structure", a.isStructAnnot), ("structure_type", a.isStructTypeAnnot),
    ("handled_type", a.isHandledType), ("type", a.isTypeAnnot),
    ("pod", ← ofExcept (s.annotIsPod a)), ("ref_type", a.isRefType)]
  return ofMembers [[("name", text a.name), ("m", text a.mangledName), ("is", kinds),
      ("size", ofNat (← ofExcept (s.annotSize a))),
      ("align", ofNat (← ofExcept (s.annotAlign a)))],
    optional "bound" (ofOption text ((a.bound?.bind s.struct?).map (·.mangledName)))]

def writeKept : Kept → WorkM Record
  | .struct id => writeStruct true id
  | .enum id => writeEnumeration id
  | .annot id => writeAnnot id
  | .func id => writeFunction id
  | .var id => writeVariable id
  | .expr e => writeExpr e
  | o => unreadable s!"no record for {o.kind}"

def keptName (s : Store) : Kept → String
  | .struct id => ((s.struct? id).map (·.mangledName)).getD ""
  | .enum id => ((s.enumeration? id).map (·.mangledName)).getD ""
  | .annot id => ((s.annot? id).map (·.mangledName)).getD ""
  | .func id => ((s.function? id).map s.mangledFunction).getD ""
  | .var id => s.mangledVariable (s.var id)
  | _ => ""

def ofModule (s : Store) (m : Module) : Record :=
  let names {α : Type} (key : String) (f : α → Kept) (ids : List α) : Members :=
    optional key (ofTexts (ids.map fun id => keptName s (f id)))
  ofMembers [[("name", text m.name)], optional "builtin" (bool m.isBuiltin),
    names "functions" .func m.functions.values, names "generics" .func m.generics.values,
    names "structures" .struct m.structOrder, names "enumerations" .enum m.enumerations.values,
    names "globals" .var m.globalOrder, names "annotations" .annot m.annots.values,
    optional "aliases" (ofTexts (m.aliases.values.map s.describeAlias)),
    optional "macros" (ofTexts ((m.rewriters.filterMap s.rewriter?).map (·.name)))]

def writeTypeInfo (t : Ty) : WorkM Record := do
  let s ← store
  let kinds := [("auto", t.isAuto), ("alias", t.isAlias), ("void", t.isVoid),
    ("pointer", t.isPointer), ("handle", t.isHandle), ("structure", t.isStruct),
    ("simple", t.isSimple t.base), ("ref_type", s.isRefType t), ("ref", s.isRef t)]
  let size ← ofExcept (s.typeSize t)
  let align ← ofExcept (s.typeAlign t)
  let copies ← copyFlags (s.typeCopy · t)
  return ofMembers [[("base", text t.base.name), ("d", text (s.typeText t)),
      ("m", text (s.mangledType t)), ("size", ofNat size), ("align", ofNat align),
      ("is", ofFlags (kinds ++ copies))], optional "at" (ofSpan t.span)]

end Frontend.Record
