import Frontend.Decl.Text
import Frontend.Expr.Copy
import Frontend.Script.Basic

/-!
# The visitor of a script

Every visit has a name and a subject: what is visited in a few words, with the parts of the subject
joined by bars. The visitor records visits, closes the gates that the script refuses, and lets the
first rule that matches answer a visit that may be answered.
-/

namespace Frontend

def Node.visitName : Node → String
  | label .. => "label"
  | goto .. => "goto"
  | convert mode _ =>
    match mode with
    | .refToValue => "ref2value"
    | .refToPointer => "ref2ptr"
    | .pointerToRef => "ptr2ref"
  | address .. => "addr"
  | nullCoalescing .. => "null_coalescing"
  | looksLikeCall .. => "looks_like_call"
  | call .. => "call"
  | namedCall .. => "named_call"
  | makeGenerator .. => "make_generator"
  | new .. => "new"
  | yield .. => "yield"
  | makeBlock .. => "make_block"
  | isType .. => "is"
  | typeInfo .. => "type_info"
  | delete .. => "delete"
  | cast .. => "cast"
  | ascend .. => "ascend"
  | index safe .. => if safe then "safe_at" else "at"
  | block .. => "block"
  | swizzle .. => "swizzle"
  | field access .. =>
    match access with
    | .field => "field"
    | .safeField => "safe_field"
    | .isVariant => "is_variant"
    | .asVariant => "as_variant"
    | .safeAsVariant => "safe_as_variant"
  | stringBuilder .. => "string_builder"
  | var .. => "var"
  | op1 .. => "op1"
  | op2 .. => "op2"
  | op3 .. => "op3"
  | assign mode .. =>
    match mode with
    | .move => "move"
    | .clone => "clone"
    | .copy => "copy"
  | sequence .. => "sequence"
  | tryCatch .. => "try_catch"
  | ret .. => "return"
  | breakLoop => "break"
  | continueLoop => "continue"
  | ifThenElse .. => "if_then_else"
  | within .. => "with"
  | whileLoop .. => "while"
  | forEach .. => "for"
  | declare .. => "let"
  | makeStruct .. => "make_structure"
  | makeVariant .. => "make_variant"
  | makeArray .. => "make_array"
  | makeTuple .. => "make_tuple"
  | comprehension .. => "array_comprehension"
  | literal .. => "const"

/-- The name of a literal's own visits, besides those it shares with other literals. -/
def Literal.visitName : Literal → String
  | const _ => "const_value"
  | string _ => "const_string"
  | enumValue .. => "const_enumeration"
  | null => "const_ptr"

def subject (parts : List String) : String := "|".intercalate (parts.filter (!·.isEmpty))

private def lastPart (last : Bool) : String := if last then "last" else ""

namespace Store

def slotVisit (s : Store) (slot : Slot) (e : Expr) : String × String :=
  let what := s.describe e
  match slot with
  | .defaultValue => ("null_coalescing_default", what)
  | .looksLikeCallArg call last => ("looks_like_call_arg", subject [call, what, lastPart last])
  | .callArg call last => ("call_arg", subject [call, what, lastPart last])
  | .newArg type last => ("new_arg", subject [s.typeText type, what, lastPart last])
  | .index safe => (if safe then "safe_at_index" else "at_index", what)
  | .statement => ("block_expression", what)
  | .finalStatement => ("block_final_expression", what)
  | .stringElement last => ("string_builder_element", subject [what, lastPart last])
  | .op2Right op => ("op2_right", subject [op, what])
  | .op3Left op => ("op3_left", subject [op, what])
  | .op3Right op => ("op3_right", subject [op, what])
  | .assignRight mode =>
    (match mode with
      | .move => "move_right"
      | .clone => "clone_right"
      | .copy => "copy_right", subject [mode.op, what])
  | .sequenceRight => ("sequence_right", what)
  | .handler => ("catch", what)
  | .ifBranch => ("if_block", what)
  | .elseBranch => ("else_block", what)
  | .withinBody => ("with_body", what)
  | .whileBody => ("while_body", what)
  | .loopSource last => ("for_source", subject [what, lastPart last])
  | .loopBody => ("for_body", what)
  | .arrayValue i last => ("make_array_index", subject [toString i, what, lastPart last])
  | .tupleValue i last => ("make_tuple_index", subject [toString i, what, lastPart last])
  | .comprehensionBody => ("array_comprehension_subexpr", what)
  | .comprehensionFilter => ("array_comprehension_where", what)
  | .init place id =>
    let name := (s.var id).name
    match place with
    | .blockArg => ("block_argument_init", subject [name, what])
    | .loop => ("for_variable_init", subject [name, what])
    | .local => ("let_init", subject [name, what])
    | .argument function => ("argument_init", subject [function, name, what])
    | .global => ("global_let_init", subject [name, what])
  | .functionBody function => ("function_body", subject [function, what])
  | .enumValue enumeration name last =>
    ("enumeration_value", subject [enumeration, name, what, lastPart last])

def fieldVisit (slot : FieldSlot) (f : FieldInit) : String × String :=
  match slot with
  | .namedCallArg call last => ("named_call_arg", subject [call, f.name, lastPart last])
  | .structField row last =>
    ("make_structure_field", subject [toString row, f.name, lastPart last])
  | .variantField i last => ("make_variant_field", subject [toString i, f.name, lastPart last])

def variableVisit (s : Store) (place : VariablePlace) (id : VarId) (last : Bool) :
    String × String :=
  let name := (s.var id).name
  match place with
  | .blockArg => ("block_argument", subject [name, lastPart last])
  | .loop => ("for_variable", subject [name, lastPart last])
  | .local => ("let_variable", subject [name, lastPart last])
  | .argument function => ("argument", subject [function, name, lastPart last])
  | .global => ("global_let", name)

def noticeVisit (s : Store) (notice : Notice) : String × String :=
  match notice with
  | .isType type => ("pre_visit_is_type", s.typeText type)
  | .finallyBegin => ("pre_visit_block_final", "")
  | .finallyEnd => ("visit_block_final", "")
  | .loopStack names => ("pre_visit_for_stack", ",".intercalate names)
  | .rowBegin i last => ("pre_visit_make_structure_index", subject [toString i, lastPart last])
  | .rowEnd i last => ("visit_make_structure_index", subject [toString i, lastPart last])
  | .structBegin name => ("pre_visit_structure", name)
  | .structFieldBegin x f last => ("pre_visit_structure_field", subject [x, f, lastPart last])
  | .structFieldEnd x f last => ("visit_structure_field", subject [x, f, lastPart last])
  | .enumBegin name => ("pre_visit_enumeration", name)
  | .enumValueBegin e name value last =>
    ("pre_visit_enumeration_value",
      subject [e, name, (value.map s.describe).getD "", lastPart last])
  | .functionBegin name => ("pre_visit_function", name)
  | .programBegin module => ("pre_visit_program", module)
  | .programBodyBegin module => ("pre_visit_program_body", module)
  | .globalsBegin module => ("pre_visit_global_let_body", module)
  | .globalsEnd module => ("visit_global_let_body", module)
  | .programEnd module => ("visit_program", module)

def gateVisit (s : Store) (gate : Gate) : String × String :=
  match gate with
  | .branches cond => ("can_visit_if_subexpr", s.describe cond)
  | .fieldInits x => ("can_visit_structure_field_init", x)
  | .function name => ("can_visit_function", name)

end Store

def Rule.matches (r : Rule) (hook what : String) (count : Nat) : Bool :=
  r.hook == hook && r.subject?.all (· == what) && r.limit?.all (decide <| count < ·)

namespace Script

def record (script : Script) (hook what : String) (state : ScriptState) : ScriptState :=
  if (script.only.isEmpty || script.only.contains hook) && !script.skip.contains hook then
    { state with records := (if what.isEmpty then hook else hook ++ " " ++ what) :: state.records }
  else state

/-- The first rule that acts on a visit, and the counts after it has acted. -/
def firstMatch (hook what : String) : List Rule → List Nat → Option (RuleAction × List Nat)
  | [], _ => none
  | r :: rs, counts =>
    let count := counts.headD 0
    if r.matches hook what count then some (r.action, (count + 1) :: counts.tailD [])
    else (firstMatch hook what rs (counts.tailD [])).map fun (action, rest) =>
      (action, count :: rest)

variable (script : Script)

def note (hook what : String) : VisitM ScriptState Unit :=
  VisitM.modifyUser (script.record hook what)

/-- Records a visit that may be answered, and the action of the rule that answers it. -/
def answer (hook what : String) : VisitM ScriptState (Option RuleAction) := do
  script.note hook what
  let state ← VisitM.user
  match firstMatch hook what script.rules state.counts with
  | none => return none
  | some (action, counts) =>
    VisitM.modifyUser fun state => { state with counts }
    return some action

def freshCopy (e : Expr) : VisitM ScriptState Expr := do
  match (← VisitM.store).copyExpr e with
  | .ok (e, store) =>
    VisitM.modifyStore fun _ => store
    return e
  | .error fault => VisitM.fail fault

def answerExpr (hook what : String) : VisitM ScriptState (Rewrite Expr) := do
  match ← script.answer hook what with
  | some .remove => return .remove
  | some (.expr e) => return .replace (← freshCopy e)
  | _ => return .keep

def answerField (hook what : String) : VisitM ScriptState (Rewrite FieldInit) := do
  match ← script.answer hook what with
  | some .remove => return .remove
  | some (.field f) => return .replace { f with value := ← freshCopy f.value }
  | _ => return .keep

def answerVariable (hook what : String) : VisitM ScriptState (Rewrite VarId) := do
  match ← script.answer hook what with
  | some .remove => return .remove
  | some (.var id) => return .replace id
  | _ => return .keep

/-- The literal's own answer counts first, then that of all literals. -/
def leaveNode (e : Expr) : VisitM ScriptState (Rewrite Expr) := do
  let what := (← VisitM.store).describe e
  match e.node with
  | .literal l =>
    match ← script.answerExpr ("visit_" ++ l.visitName) what with
    | .keep => script.answerExpr "visit_const" what
    | r => return r
  | node => script.answerExpr ("visit_" ++ node.visitName) what

def weight : Nat :=
  total (fun r =>
    match r.action with
    | .expr e => e.weight
    | .field f => f.value.weight
    | _ => 0) script.rules

def genericVisitor : Visitor ScriptState where
  enter e := do
    script.note "pre_visit_expression" ((← VisitM.store).describe e)
    return e
  leave e := do script.answerExpr "visit_expression" ((← VisitM.store).describe e)
  weight := script.weight

def detailedVisitor : Visitor ScriptState where
  enter e := do
    let what := (← VisitM.store).describe e
    script.note ("pre_visit_" ++ e.node.visitName) what
    match e.node with
    | .literal l => script.note ("pre_visit_" ++ l.visitName) what
    | _ => pure ()
    return e
  leave := script.leaveNode
  enterSlot slot e := do
    let (name, what) := (← VisitM.store).slotVisit slot e
    script.note ("pre_visit_" ++ name) what
  leaveSlot slot e := do
    let (name, what) := (← VisitM.store).slotVisit slot e
    script.answerExpr ("visit_" ++ name) what
  enterField slot f := do
    let (name, what) := Store.fieldVisit slot f
    script.note ("pre_visit_" ++ name) what
  leaveField slot f := do
    let (name, what) := Store.fieldVisit slot f
    script.answerField ("visit_" ++ name) what
  enterVariable place id last := do
    let (name, what) := (← VisitM.store).variableVisit place id last
    script.note ("pre_visit_" ++ name) what
  leaveVariable place id last := do
    let (name, what) := (← VisitM.store).variableVisit place id last
    script.answerVariable ("visit_" ++ name) what
  enterType t := do
    script.note "pre_visit_type" ((← VisitM.store).typeText t)
    return t
  leaveType t := do
    match ← script.answer "visit_type" ((← VisitM.store).typeText t) with
    | some (.type t) => return t
    | _ => return t
  leaveStruct id := do
    let name := (((← VisitM.store).struct? id).map (·.name)).getD ""
    match ← script.answer "visit_structure" name with
    | some .remove => return .remove
    | some (.struct id) => return .replace id
    | _ => return .keep
  leaveEnum id := do
    let name := (((← VisitM.store).enumeration? id).map (·.name)).getD ""
    match ← script.answer "visit_enumeration" name with
    | some .remove => return .remove
    | some (.enumeration id) => return .replace id
    | _ => return .keep
  leaveFunction id := do
    let name := (((← VisitM.store).function? id).map (·.name)).getD ""
    match ← script.answer "visit_function" name with
    | some .remove => return .remove
    | some (.function id) => return .replace id
    | _ => return .keep
  allows gate := do
    let (name, what) := (← VisitM.store).gateVisit gate
    script.note name what
    return !(script.refuse.contains name || script.refuse.contains (name ++ " " ++ what))
  notice n := do
    let (name, what) := (← VisitM.store).noticeVisit n
    script.note name what
  weight := script.weight

def visitor : Visitor ScriptState :=
  if script.isGeneric then script.genericVisitor else script.detailedVisitor

end Script

end Frontend
