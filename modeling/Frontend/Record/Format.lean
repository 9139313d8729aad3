import Frontend.Expr.Parts

/-!
# Names of nodes and their parts in records

The record of a node names its kind and holds each of its parts under a name of its own.
-/

namespace Frontend

def callKindNames : List (CallKind × String) :=
  [(.staticAssert, "static_assert"), (.assert, "assert"), (.verify, "verify"), (.debug, "debug"),
    (.memZero, "memzero"), (.invoke, "invoke"), (.erase, "erase"), (.find, "find"),
    (.keyExists, "key_exists"), (.generic, "generic")]

namespace Node

def recordKind : Node → String
  | literal (.const _) => "Const"
  | literal (.string _) => "String"
  | literal (.enumValue ..) => "Enum"
  | literal .null => "Null"
  | n => .ofList (n.name.toList.drop 4)

def partNames : Node → List String
  | label .. => ["label", "comment"]
  | goto .. => ["label", "sub"]
  | convert .. => ["sub"]
  | address .. => ["target", "func", "func_type"]
  | nullCoalescing .. => ["sub", "default"]
  | looksLikeCall .. => ["name", "kind", "args"]
  | call .. => ["name", "args", "func"]
  | namedCall .. => ["name", "args"]
  | makeGenerator .. => ["iter", "args"]
  | new .. => ["new_type", "args", "initializer"]
  | yield .. => ["sub", "move"]
  | makeBlock .. => ["block", "lambda", "local"]
  | isType .. => ["sub", "is_type"]
  | typeInfo .. => ["trait", "subtrait", "extratrait", "sub", "of"]
  | delete .. => ["sub", "native"]
  | cast .. => ["sub", "to", "upcast", "reinterpret"]
  | ascend .. => ["sub", "stack", "need_type_info"]
  | index .. => ["sub", "index"]
  | block .. =>
    ["args", "list", "final", "returns", "annotations", "closure", "collapseable",
      "finally_before", "finally_disabled", "has_return"]
  | swizzle .. => ["mask", "sub", "fields"]
  | field .. => ["name", "sub", "field", "index", "unsafe"]
  | stringBuilder .. => ["elements"]
  | var .. => ["name", "ref", "local", "argument", "block", "index"]
  | op1 .. => ["op", "sub", "func"]
  | op2 .. => ["op", "left", "right", "func"]
  | op3 .. => ["op", "sub", "left", "right", "func"]
  | assign .. => ["left", "right", "func"]
  | sequence .. => ["left", "right"]
  | tryCatch .. => ["try", "catch"]
  | ret .. => ["sub", "move", "from_yield"]
  | breakLoop | continueLoop => []
  | ifThenElse .. => ["cond", "then", "else", "static"]
  | within .. => ["with", "body"]
  | whileLoop .. => ["cond", "body"]
  | forEach .. => ["names", "vars", "sources", "body"]
  | declare .. => ["vars", "in_scope"]
  | makeStruct .. => ["make", "structs", "use_init"]
  | makeVariant .. => ["make", "fields"]
  | makeArray .. => ["make", "values"]
  | makeTuple .. => ["make", "values", "key_value"]
  | comprehension .. => ["for", "sub", "where", "generator"]
  | literal (.const _) => ["value"]
  | literal (.string _) => ["value"]
  | literal (.enumValue ..) => ["enum", "text"]
  | literal .null => []

/-- Whether a text or a list is left out of the record if it is empty. -/
def leavesOut : Node → String → Bool
  | label .., "comment" => true
  | typeInfo .., "subtrait" => true
  | typeInfo .., "extratrait" => true
  | block .., "args" => true
  | block .., "final" => true
  | block .., "annotations" => true
  | swizzle .., "fields" => true
  | forEach .., "vars" => true
  | _, _ => false

def samples : List Node :=
  let e : Expr := default
  let t : Ty := .auto
  [label 0 "", goto (-1) none, convert .refToValue e, convert .refToPointer e,
    convert .pointerToRef e, address "" none none, nullCoalescing e e,
    looksLikeCall "" .generic [], call "" [] none, namedCall "" [], makeGenerator none [],
    new t [] false, yield e false, makeBlock e false false, isType e t,
    typeInfo ⟨"", "", ""⟩ none none, delete e false, cast e t false false, ascend e false false,
    index false e e, index true e e, block {} [] [], swizzle "" e [],
    field .field "" e none none false, field .safeField "" e none none false,
    field .isVariant "" e none none false, field .asVariant "" e none none false,
    field .safeAsVariant "" e none none false, stringBuilder [], var { name := "" },
    op1 "" e none, op2 "" e e none, op3 "" e e e none, assign .move e e none,
    assign .clone e e none, assign .copy e e none, sequence e e, tryCatch e e,
    ret none false false, breakLoop, continueLoop, ifThenElse e e none false, within e e,
    whileLoop e e, forEach [] [] [] none, declare [] false, makeStruct t [] false,
    makeVariant t [], makeArray t [], makeTuple none [] false, comprehension e e none false,
    literal (.const (.bool false)), literal (.string ""), literal (.enumValue none ""),
    literal .null]

/-- Every part has a name. -/
theorem length_partNames (n : Node) : n.partNames.length = n.parts.length := by
  cases n with
  | literal value => cases value <;> rfl
  | _ => rfl

end Node

end Frontend
