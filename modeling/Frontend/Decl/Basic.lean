import Frontend.Expr.Basic
import Frontend.NameMap

/-!
# Declarations

Variables, functions, structures, enumerations, annotations and modules as they stand in the tables
of a store. A declaration registered in a module carries the module's name.
-/

namespace Frontend

structure Variable where
  name : String
  type : Ty
  init : Option Expr := none
  span : Span := .builtin
  /-- Name of the owning module; globals only. -/
  module? : Option String := none
  accessGet : Bool := false
  accessInit : Bool := false
  accessPass : Bool := false
  accessRef : Bool := false
  /-- The initializer is moved into the variable. -/
  movesInit : Bool := false
  used : Bool := false
  isPrivate : Bool := false
  stackSize : Nat := 0
  arguments : Arguments := .empty
  deriving Inhabited

structure InferStep where
  span : Span
  function : Option FunctionId
  deriving DecidableEq, Repr, Inhabited

abbrev SideEffects := UInt32

namespace SideEffects

/-- Not an effect: marks the function itself as an unsafe operation. -/
def unsafeBit : SideEffects := 1

def worst : SideEffects := 0b11100

end SideEffects

structure Function where
  name : String
  args : List VarId := []
  result : Ty := .auto
  /-- Absent for native functions. -/
  body : Option Expr := none
  annots : List AnnotUse := []
  span : Span := .builtin
  module? : Option String := none
  isBuiltin : Bool := false
  exports : Bool := false
  isInit : Bool := false
  isLateInit : Bool := false
  used : Bool := false
  isPrivate : Bool := false
  isGenerated : Bool := false
  isUnsafeOperation : Bool := false
  sideEffects : SideEffects := 0
  inferStack : List InferStep := []
  deriving Inhabited

structure Field where
  name : String
  type : Ty
  init : Option Expr := none
  arguments : Arguments := .empty
  moves : Bool := false
  span : Span := .builtin
  deriving Inhabited

/-- A structure type. The fields inherited from a parent come first, as copies, so the list is
always complete. -/
structure Struct where
  name : String
  fields : List Field := []
  span : Span := .builtin
  module? : Option String := none
  parent? : Option StructId := none
  annots : List AnnotUse := []
  /-- Fields follow the native layout of derived types. -/
  cppLayout : Bool := false
  /-- Own fields start after the padded parent. -/
  cppLayoutPod : Bool := false
  genCtor : Bool := false
  isGenerated : Bool := false
  deriving Inhabited

structure Enumeration where
  name : String
  /-- Storage type of the values. -/
  base : BaseType
  /-- Entries in declaration order; one without a value is still to be numbered. -/
  entries : List (String × Option Expr) := []
  span : Span := .builtin
  module? : Option String := none
  isExternal : Bool := false
  deriving Inhabited

inductive AnnotKind where
  | function (generic : Bool)
  /-- For structures, without an effect on their layout. -/
  | struct
  /-- A native type that scripts see as an opaque handle. -/
  | handled (size align : Nat) (pod refType : Bool)
  /-- Turns a structure into a handled type; bound to it once that is done. -/
  | structType (requiresPod : Bool) (bound : Option StructId)
  deriving DecidableEq, Repr, Inhabited

structure Annot where
  name : String
  kind : AnnotKind
  module? : Option String := none
  deriving Inhabited

/-- Makes the node of a call that is compiled specially. -/
structure CallFactory where
  make : Span → Expr

namespace CallFactory

def looksLike (name : String) (kind : CallKind) : CallFactory where
  make span := .ofNode span (.looksLikeCall name kind [])

def call (name : String) : CallFactory where
  make span := .ofNode span (.call name [] none)

def null : CallFactory where
  make := .null

end CallFactory

/-- A named collection of declarations. Structures and globals also keep their declaration order. -/
structure Module where
  name : String
  isBuiltin : Bool := false
  functions : NameMap FunctionId := .empty
  generics : NameMap FunctionId := .empty
  structs : NameMap StructId := .empty
  structOrder : List StructId := []
  enumerations : NameMap EnumId := .empty
  globals : NameMap VarId := .empty
  globalOrder : List VarId := []
  annots : NameMap AnnotId := .empty
  aliases : NameMap Ty := .empty
  calls : NameMap CallFactory := .empty
  rewriters : List RewriterId := []
  deriving Inhabited

def qualified (module? : Option String) (name : String) : String :=
  match module? with
  | some module => if module.isEmpty then name else module ++ "::" ++ name
  | none => name

namespace Variable

def isAccessUnused (v : Variable) : Bool :=
  !(v.accessGet || v.accessInit || v.accessPass || v.accessRef)

end Variable

namespace Function

def native (name : String) (args : List VarId) (result : Ty) : Function :=
  { name, args, result, isBuiltin := true, sideEffects := .worst }

def withSideEffects (f : Function) (effects : SideEffects) : Function :=
  { f with
    sideEffects := effects &&& ~~~SideEffects.unsafeBit
    isUnsafeOperation := f.isUnsafeOperation || effects &&& SideEffects.unsafeBit != 0 }

end Function

namespace Struct

def mangledName (s : Struct) : String := qualified s.module? s.name

def field? (s : Struct) (name : String) : Option Field := s.fields.find? (·.name == name)

def fieldIndex? (s : Struct) (name : String) : Option Nat :=
  s.fields.findIdx? (·.name == name)

def hasInitializers (s : Struct) : Bool := s.fields.any (·.init.isSome)

def isCompatibleCast (s t : Struct) : Bool :=
  decide (s.fields.length ≤ t.fields.length) &&
    (s.fields.zip t.fields).all fun f => f.1.name == f.2.name && f.1.type.sameType f.2.type

end Struct

namespace Enumeration

def mangledName (e : Enumeration) : String := qualified e.module? e.name ++ "#" ++ e.base.name

/-- Appends an entry; a name that is taken changes nothing. -/
def appending? (e : Enumeration) (name : String) (value : Option Expr) : Option Enumeration :=
  if e.entries.any (·.1 == name) then none
  else some { e with entries := e.entries ++ [(name, value)] }

def entry? (e : Enumeration) (name : String) : Option (Option Expr) := e.entries.lookup name

def nameOf? (e : Enumeration) (value : Int64) : Option String :=
  (e.entries.find? fun x => (x.2.bind Expr.int64?) == some value).map (·.1)

def storage? (e : Enumeration) : Option BaseType :=
  match e.base with
  | .int8 | .uint8 => some .enum8
  | .int16 | .uint16 => some .enum16
  | .int | .uint => some .enum
  | _ => none

def numeral (base : BaseType) (value : Int64) : Expr :=
  .ofNode .builtin (.literal (.const ((Constant.ofInt64? base value).getD (.int64 value))))

/-- Numbers the entries without a value, from `next` on. An integer literal restarts the count after
itself, and a value that is none leaves the count as it is. -/
def numberFrom (base : BaseType) : Int64 → List (String × Option Expr) → List (String × Option Expr)
  | _, [] => []
  | next, (name, some value) :: rest =>
    let next := match value.int64? with
      | some current => current + 1
      | none => next
    (name, some value) :: numberFrom base next rest
  | next, (name, none) :: rest =>
    (name, some (numeral base next)) :: numberFrom base (next + 1) rest

def resolveValues (e : Enumeration) : Enumeration :=
  { e with entries := numberFrom e.base 0 e.entries }

end Enumeration

namespace Annot

def mangledName (a : Annot) : String := qualified a.module? a.name

def isFunctionAnnot (a : Annot) : Bool :=
  match a.kind with
  | .function _ => true
  | _ => false

def isGeneric (a : Annot) : Bool := a.kind == .function true

def isStructAnnot (a : Annot) : Bool :=
  match a.kind with
  | .struct | .structType .. => true
  | _ => false

def isStructTypeAnnot (a : Annot) : Bool :=
  match a.kind with
  | .structType .. => true
  | _ => false

def isHandledType (a : Annot) : Bool :=
  match a.kind with
  | .handled .. => true
  | _ => false

def isTypeAnnot (a : Annot) : Bool := a.isHandledType || a.isStructTypeAnnot

def bound? (a : Annot) : Option StructId :=
  match a.kind with
  | .structType _ bound => bound
  | _ => none

def isRefType (a : Annot) : Bool :=
  match a.kind with
  | .handled _ _ _ refType => refType
  | .structType .. => true
  | _ => false

def apply (a : Annot) (f : Function) (arguments : Arguments) : Except String Function :=
  if !a.isFunctionAnnot then .error s!"{a.name} is not a function annotation"
  else match a.name with
    | "export" => .ok { f with exports := true }
    | "init" =>
      if !f.args.isEmpty then .error "init function can't have arguments"
      else .ok { f with isInit := true, isLateInit := arguments.getBool "late" false }
    | "private" => .ok { f with isPrivate := true }
    | _ => .ok f

end Annot

end Frontend
