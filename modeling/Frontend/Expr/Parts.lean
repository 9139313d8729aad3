import Frontend.Expr.Basic

/-!
# Parts of a node

Every node is a kind with a list of parts, for tools that treat all kinds alike. `Node.parts` lists
the parts in their fixed order and `Node.withParts?` puts others in their places, which is possible
if each is a part of the same sort.
-/

namespace Frontend

inductive Part where
  | text (value : String)
  | texts (values : List String)
  | flag (value : Bool)
  | int (value : Int32)
  | index (value : Option Nat)
  | bytes (values : List UInt8)
  | callKind (value : CallKind)
  | type (value : Ty)
  | optionType (value : Option Ty)
  | tree (value : Expr)
  | optionTree (value : Option Expr)
  | trees (values : List Expr)
  | fields (values : List FieldInit)
  | rows (values : List (List FieldInit))
  | vars (ids : List VarId)
  | varLink (id : Option VarId)
  | functionLink (id : Option FunctionId)
  | enumLink (id : Option EnumId)
  | annots (uses : List AnnotUse)
  | constant (value : Constant)

namespace Node

def parts : Node → List Part
  | label number comment => [.int number, .text comment]
  | goto number target => [.int number, .optionTree target]
  | convert _ value => [.tree value]
  | address target function type => [.text target, .functionLink function, .optionType type]
  | nullCoalescing value default => [.tree value, .tree default]
  | looksLikeCall name kind args => [.text name, .callKind kind, .trees args]
  | call name args function => [.text name, .trees args, .functionLink function]
  | namedCall name args => [.text name, .fields args]
  | makeGenerator type args => [.optionType type, .trees args]
  | new type args hasInitializer => [.type type, .trees args, .flag hasInitializer]
  | yield value moves => [.tree value, .flag moves]
  | makeBlock body isLambda isLocalFunction =>
    [.tree body, .flag isLambda, .flag isLocalFunction]
  | isType value type => [.tree value, .type type]
  | typeInfo query value type =>
    [.text query.trait, .text query.subtrait, .text query.extratrait, .optionTree value,
      .optionType type]
  | delete value native => [.tree value, .flag native]
  | cast value type upcast reinterpret =>
    [.tree value, .type type, .flag upcast, .flag reinterpret]
  | ascend value onStack needsTypeInfo => [.tree value, .flag onStack, .flag needsTypeInfo]
  | index _ value position => [.tree value, .tree position]
  | block info list finalList =>
    [.vars info.args, .trees list, .trees finalList, .optionType info.returnType,
      .annots info.annots, .flag info.isClosure, .flag info.isCollapseable,
      .flag info.finallyBeforeBody, .flag info.finallyDisabled, .flag info.hasReturn]
  | swizzle mask value fields => [.text mask, .tree value, .bytes fields]
  | field _ name value field? element? derefsFreely =>
    [.text name, .tree value, .index field?, .index element?, .flag derefsFreely]
  | stringBuilder elements => [.trees elements]
  | var ref =>
    [.text ref.name, .varLink ref.var?, .flag ref.isLocal, .flag ref.isArgument,
      .flag ref.isBlock, .index ref.argumentIndex]
  | op1 op value function => [.text op, .tree value, .functionLink function]
  | op2 op left right function => [.text op, .tree left, .tree right, .functionLink function]
  | op3 op value left right function =>
    [.text op, .tree value, .tree left, .tree right, .functionLink function]
  | assign _ left right function => [.tree left, .tree right, .functionLink function]
  | sequence left right => [.tree left, .tree right]
  | tryCatch body handler => [.tree body, .tree handler]
  | ret value moves fromYield => [.optionTree value, .flag moves, .flag fromYield]
  | breakLoop => []
  | continueLoop => []
  | ifThenElse cond ifTrue ifFalse isStatic =>
    [.tree cond, .tree ifTrue, .optionTree ifFalse, .flag isStatic]
  | within value body => [.tree value, .tree body]
  | whileLoop cond body => [.tree cond, .tree body]
  | forEach names vars sources body =>
    [.texts names, .vars vars, .trees sources, .optionTree body]
  | declare vars inScope => [.vars vars, .flag inScope]
  | makeStruct type rows useInitializer => [.type type, .rows rows, .flag useInitializer]
  | makeVariant type fields => [.type type, .fields fields]
  | makeArray type values => [.type type, .trees values]
  | makeTuple type values isKeyValue => [.optionType type, .trees values, .flag isKeyValue]
  | comprehension source body filter isGenerator =>
    [.tree source, .tree body, .optionTree filter, .flag isGenerator]
  | literal (.const c) => [.constant c]
  | literal (.string s) => [.text s]
  | literal (.enumValue enum? name) => [.enumLink enum?, .text name]
  | literal .null => []

/-- The node of the same kind that has the given parts. -/
def withParts? (n : Node) (parts : List Part) : Option Node :=
  match n with
  | label .. =>
    match parts with
    | [.int number, .text comment] => some (label number comment)
    | _ => none
  | goto .. =>
    match parts with
    | [.int number, .optionTree target] => some (goto number target)
    | _ => none
  | convert mode _ =>
    match parts with
    | [.tree value] => some (convert mode value)
    | _ => none
  | address .. =>
    match parts with
    | [.text target, .functionLink function, .optionType type] =>
      some (address target function type)
    | _ => none
  | nullCoalescing .. =>
    match parts with
    | [.tree value, .tree default] => some (nullCoalescing value default)
    | _ => none
  | looksLikeCall .. =>
    match parts with
    | [.text name, .callKind kind, .trees args] => some (looksLikeCall name kind args)
    | _ => none
  | call .. =>
    match parts with
    | [.text name, .trees args, .functionLink function] => some (call name args function)
    | _ => none
  | namedCall .. =>
    match parts with
    | [.text name, .fields args] => some (namedCall name args)
    | _ => none
  | makeGenerator .. =>
    match parts with
    | [.optionType type, .trees args] => some (makeGenerator type args)
    | _ => none
  | new .. =>
    match parts with
    | [.type type, .trees args, .flag hasInitializer] => some (new type args hasInitializer)
    | _ => none
  | yield .. =>
    match parts with
    | [.tree value, .flag moves] => some (yield value moves)
    | _ => none
  | makeBlock .. =>
    match parts with
    | [.tree body, .flag isLambda, .flag isLocalFunction] =>
      some (makeBlock body isLambda isLocalFunction)
    | _ => none
  | isType .. =>
    match parts with
    | [.tree value, .type type] => some (isType value type)
    | _ => none
  | typeInfo .. =>
    match parts with
    | [.text trait, .text subtrait, .text extratrait, .optionTree value, .optionType type] =>
      some (typeInfo ⟨trait, subtrait, extratrait⟩ value type)
    | _ => none
  | delete .. =>
    match parts with
    | [.tree value, .flag native] => some (delete value native)
    | _ => none
  | cast .. =>
    match parts with
    | [.tree value, .type type, .flag upcast, .flag reinterpret] =>
      some (cast value type upcast reinterpret)
    | _ => none
  | ascend .. =>
    match parts with
    | [.tree value, .flag onStack, .flag needsTypeInfo] => some (ascend value onStack needsTypeInfo)
    | _ => none
  | index safe _ _ =>
    match parts with
    | [.tree value, .tree position] => some (index safe value position)
    | _ => none
  | block .. =>
    match parts with
    | [.vars args, .trees list, .trees finalList, .optionType returnType, .annots annots,
        .flag isClosure, .flag isCollapseable, .flag finallyBeforeBody, .flag finallyDisabled,
        .flag hasReturn] =>
      some (block ⟨args, returnType, annots, isClosure, isCollapseable, finallyBeforeBody,
        finallyDisabled, hasReturn⟩ list finalList)
    | _ => none
  | swizzle .. =>
    match parts with
    | [.text mask, .tree value, .bytes fields] => some (swizzle mask value fields)
    | _ => none
  | field access .. =>
    match parts with
    | [.text name, .tree value, .index field?, .index element?, .flag derefsFreely] =>
      some (field access name value field? element? derefsFreely)
    | _ => none
  | stringBuilder .. =>
    match parts with
    | [.trees elements] => some (stringBuilder elements)
    | _ => none
  | var .. =>
    match parts with
    | [.text name, .varLink var?, .flag isLocal, .flag isArgument, .flag isBlock,
        .index argumentIndex] =>
      some (var { name, var?, isLocal, isArgument, isBlock, argumentIndex })
    | _ => none
  | op1 .. =>
    match parts with
    | [.text op, .tree value, .functionLink function] => some (op1 op value function)
    | _ => none
  | op2 .. =>
    match parts with
    | [.text op, .tree left, .tree right, .functionLink function] =>
      some (op2 op left right function)
    | _ => none
  | op3 .. =>
    match parts with
    | [.text op, .tree value, .tree left, .tree right, .functionLink function] =>
      some (op3 op value left right function)
    | _ => none
  | assign mode .. =>
    match parts with
    | [.tree left, .tree right, .functionLink function] => some (assign mode left right function)
    | _ => none
  | sequence .. =>
    match parts with
    | [.tree left, .tree right] => some (sequence left right)
    | _ => none
  | tryCatch .. =>
    match parts with
    | [.tree body, .tree handler] => some (tryCatch body handler)
    | _ => none
  | ret .. =>
    match parts with
    | [.optionTree value, .flag moves, .flag fromYield] => some (ret value moves fromYield)
    | _ => none
  | breakLoop =>
    match parts with
    | [] => some breakLoop
    | _ => none
  | continueLoop =>
    match parts with
    | [] => some continueLoop
    | _ => none
  | ifThenElse .. =>
    match parts with
    | [.tree cond, .tree ifTrue, .optionTree ifFalse, .flag isStatic] =>
      some (ifThenElse cond ifTrue ifFalse isStatic)
    | _ => none
  | within .. =>
    match parts with
    | [.tree value, .tree body] => some (within value body)
    | _ => none
  | whileLoop .. =>
    match parts with
    | [.tree cond, .tree body] => some (whileLoop cond body)
    | _ => none
  | forEach .. =>
    match parts with
    | [.texts names, .vars vars, .trees sources, .optionTree body] =>
      some (forEach names vars sources body)
    | _ => none
  | declare .. =>
    match parts with
    | [.vars vars, .flag inScope] => some (declare vars inScope)
    | _ => none
  | makeStruct .. =>
    match parts with
    | [.type type, .rows rows, .flag useInitializer] => some (makeStruct type rows useInitializer)
    | _ => none
  | makeVariant .. =>
    match parts with
    | [.type type, .fields fields] => some (makeVariant type fields)
    | _ => none
  | makeArray .. =>
    match parts with
    | [.type type, .trees values] => some (makeArray type values)
    | _ => none
  | makeTuple .. =>
    match parts with
    | [.optionType type, .trees values, .flag isKeyValue] => some (makeTuple type values isKeyValue)
    | _ => none
  | comprehension .. =>
    match parts with
    | [.tree source, .tree body, .optionTree filter, .flag isGenerator] =>
      some (comprehension source body filter isGenerator)
    | _ => none
  | literal (.const _) =>
    match parts with
    | [.constant c] => some (literal (.const c))
    | _ => none
  | literal (.string _) =>
    match parts with
    | [.text s] => some (literal (.string s))
    | _ => none
  | literal (.enumValue ..) =>
    match parts with
    | [.enumLink enum?, .text name] => some (literal (.enumValue enum? name))
    | _ => none
  | literal .null =>
    match parts with
    | [] => some (literal .null)
    | _ => none

/-- A node is made of its kind and its parts. -/
@[simp] theorem withParts_parts (n : Node) : n.withParts? n.parts = some n := by
  cases n with
  | literal value => cases value <;> rfl
  | _ => rfl

end Node

end Frontend
