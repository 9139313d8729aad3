import Frontend.Arguments
import Frontend.Constant.Basic
import Frontend.Ty

/-!
# Expression trees

A node has a place, the type of its value once it is known, and a kind with its children. Children
belong to their parent; variables, functions and enumerations are named by identity.
-/

namespace Frontend

structure AnnotUse where
  annot : AnnotId
  arguments : Arguments := .empty
  span : Span := .builtin
  deriving Inhabited

/-- Builtins with the shape of a call that are compiled specially. -/
inductive CallKind where
  | staticAssert | assert | verify | debug | memZero | invoke | erase | find | keyExists
  /-- Nothing special. -/
  | generic
  deriving DecidableEq, Repr, Inhabited

inductive Conversion where
  | refToValue | refToPointer | pointerToRef
  deriving DecidableEq, Repr, Inhabited

inductive FieldAccess where
  | field | safeField | isVariant | asVariant | safeAsVariant
  deriving DecidableEq, Repr, Inhabited

inductive AssignMode where
  | move | clone | copy
  deriving DecidableEq, Repr, Inhabited

def AssignMode.op : AssignMode → String
  | move => "<-"
  | clone => ":="
  | copy => "="

inductive Literal where
  | const (value : Constant)
  | string (value : String)
  /-- A value of an enumeration, by name. -/
  | enumValue (enum? : Option EnumId) (name : String)
  | null
  deriving Inhabited

structure VarRef where
  name : String
  /-- The variable, once names are resolved. -/
  var? : Option VarId := none
  isLocal : Bool := false
  isArgument : Bool := false
  isBlock : Bool := false
  argumentIndex : Option Nat := none
  deriving DecidableEq, Repr, Inhabited

structure TypeQuery where
  trait : String
  subtrait : String := ""
  extratrait : String := ""
  deriving DecidableEq, Repr, Inhabited

structure BlockInfo where
  args : List VarId := []
  returnType : Option Ty := none
  annots : List AnnotUse := []
  isClosure : Bool := false
  /-- May be inlined into the block around it. -/
  isCollapseable : Bool := false
  finallyBeforeBody : Bool := false
  finallyDisabled : Bool := false
  hasReturn : Bool := false
  deriving Inhabited

mutual

structure Expr where
  span : Span
  type : Option Ty
  /-- Bits that say how the node came about. -/
  genFlags : UInt32
  node : Node

inductive Node where
  | label (number : Int32) (comment : String)
  | goto (number : Int32) (target : Option Expr)
  | convert (mode : Conversion) (value : Expr)
  | address (target : String) (function : Option FunctionId) (type : Option Ty)
  | nullCoalescing (value default : Expr)
  | looksLikeCall (name : String) (kind : CallKind) (args : List Expr)
  | call (name : String) (args : List Expr) (function : Option FunctionId)
  | namedCall (name : String) (args : List FieldInit)
  | makeGenerator (type : Option Ty) (args : List Expr)
  | new (type : Ty) (args : List Expr) (hasInitializer : Bool)
  | yield (value : Expr) (moves : Bool)
  | makeBlock (block : Expr) (isLambda isLocalFunction : Bool)
  | isType (value : Expr) (type : Ty)
  | typeInfo (query : TypeQuery) (value : Option Expr) (type : Option Ty)
  | delete (value : Expr) (native : Bool)
  | cast (value : Expr) (type : Ty) (upcast reinterpret : Bool)
  | ascend (value : Expr) (onStack needsTypeInfo : Bool)
  | index (safe : Bool) (value index : Expr)
  | block (info : BlockInfo) (list finalList : List Expr)
  | swizzle (mask : String) (value : Expr) (fields : List UInt8)
  | field (access : FieldAccess) (name : String) (value : Expr) (field? element? : Option Nat)
      (derefsFreely : Bool)
  | stringBuilder (elements : List Expr)
  | var (ref : VarRef)
  | op1 (op : String) (value : Expr) (function : Option FunctionId)
  | op2 (op : String) (left right : Expr) (function : Option FunctionId)
  | op3 (op : String) (value left right : Expr) (function : Option FunctionId)
  | assign (mode : AssignMode) (left right : Expr) (function : Option FunctionId)
  | sequence (left right : Expr)
  | tryCatch (body handler : Expr)
  | ret (value : Option Expr) (moves fromYield : Bool)
  | breakLoop
  | continueLoop
  | ifThenElse (cond ifTrue : Expr) (ifFalse : Option Expr) (isStatic : Bool)
  | within (value body : Expr)
  | whileLoop (cond body : Expr)
  | forEach (names : List String) (vars : List VarId) (sources : List Expr) (body : Option Expr)
  | declare (vars : List VarId) (inScope : Bool)
  | makeStruct (type : Ty) (rows : List (List FieldInit)) (useInitializer : Bool)
  | makeVariant (type : Ty) (fields : List FieldInit)
  | makeArray (type : Ty) (values : List Expr)
  | makeTuple (type : Option Ty) (values : List Expr) (isKeyValue : Bool)
  | comprehension (source body : Expr) (filter : Option Expr) (isGenerator : Bool)
  | literal (value : Literal)

structure FieldInit where
  name : String
  value : Expr
  moves : Bool
  span : Span

end

instance : Inhabited Node := ⟨.literal .null⟩
instance : Inhabited Expr := ⟨⟨.builtin, none, 0, default⟩⟩
instance : Inhabited FieldInit := ⟨⟨"", default, false, .builtin⟩⟩

namespace Expr

def ofNode (span : Span) (node : Node) : Expr := ⟨span, none, 0, node⟩

def withType (e : Expr) (type : Ty) : Expr := { e with type := some type }

def const (span : Span) (c : Constant) : Expr :=
  (ofNode span (.literal (.const c))).withType (.ofBase c.baseType)

def string (span : Span) (s : String) : Expr :=
  (ofNode span (.literal (.string s))).withType (.ofBase .string)

def null (span : Span) : Expr := ofNode span (.literal .null)

/-- A statement that does nothing and vanishes when blocks are inlined. -/
def emptyBlock (span : Span) : Expr :=
  ofNode span (.block { isCollapseable := true } [] [])

def const? (e : Expr) : Option Constant :=
  match e.node with
  | .literal (.const c) => some c
  | _ => none

def int64? (e : Expr) : Option Int64 := e.const?.bind Constant.asInt64?

def isLiteral (e : Expr) : Bool :=
  match e.node with
  | .literal _ => true
  | _ => false

end Expr

def Conversion.nodeName : Conversion → String
  | refToValue => "ExprRef2Value"
  | refToPointer => "ExprRef2Ptr"
  | pointerToRef => "ExprPtr2Ref"

def FieldAccess.nodeName : FieldAccess → String
  | field => "ExprField"
  | safeField => "ExprSafeField"
  | isVariant => "ExprIsVariant"
  | asVariant => "ExprAsVariant"
  | safeAsVariant => "ExprSafeAsVariant"

def AssignMode.nodeName : AssignMode → String
  | move => "ExprMove"
  | clone => "ExprClone"
  | copy => "ExprCopy"

def Literal.nodeName : Literal → String
  | const _ => "ExprConstValue"
  | string _ => "ExprConstString"
  | enumValue _ _ => "ExprConstEnumeration"
  | null => "ExprConstPtr"

def Node.name : Node → String
  | label .. => "ExprLabel"
  | goto .. => "ExprGoto"
  | convert mode _ => mode.nodeName
  | address .. => "ExprAddr"
  | nullCoalescing .. => "ExprNullCoalescing"
  | looksLikeCall .. => "ExprLooksLikeCall"
  | call .. => "ExprCall"
  | namedCall .. => "ExprNamedCall"
  | makeGenerator .. => "ExprMakeGenerator"
  | new .. => "ExprNew"
  | yield .. => "ExprYield"
  | makeBlock .. => "ExprMakeBlock"
  | isType .. => "ExprIs"
  | typeInfo .. => "ExprTypeInfo"
  | delete .. => "ExprDelete"
  | cast .. => "ExprCast"
  | ascend .. => "ExprAscend"
  | index safe .. => if safe then "ExprSafeAt" else "ExprAt"
  | block .. => "ExprBlock"
  | swizzle .. => "ExprSwizzle"
  | field access .. => access.nodeName
  | stringBuilder .. => "ExprStringBuilder"
  | var .. => "ExprVar"
  | op1 .. => "ExprOp1"
  | op2 .. => "ExprOp2"
  | op3 .. => "ExprOp3"
  | assign mode .. => mode.nodeName
  | sequence .. => "ExprSequence"
  | tryCatch .. => "ExprTryCatch"
  | ret .. => "ExprReturn"
  | breakLoop => "ExprBreak"
  | continueLoop => "ExprContinue"
  | ifThenElse .. => "ExprIfThenElse"
  | within .. => "ExprWith"
  | whileLoop .. => "ExprWhile"
  | forEach .. => "ExprFor"
  | declare .. => "ExprLet"
  | makeStruct .. => "ExprMakeStructure"
  | makeVariant .. => "ExprMakeVariant"
  | makeArray .. => "ExprMakeArray"
  | makeTuple .. => "ExprMakeTuple"
  | comprehension .. => "ExprArrayComprehension"
  | literal value => value.nodeName

namespace Expr

def nodeName (e : Expr) : String := e.node.name

end Expr

end Frontend
