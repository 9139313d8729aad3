/-!
# Base types

The kind of a type before qualifiers and nested types are applied: its name in source text, its
class (integer, enumeration, vector, …) and, where nested types do not decide them, the size and the
alignment of its values.
-/

namespace Frontend

inductive BaseType where
  | none | auto | aliased | any | context | lineInfo | void | bool
  | int8 | uint8 | int16 | uint16
  | int | int2 | int3 | int4
  | uint | uint2 | uint3 | uint4
  | int64 | uint64
  | float | float2 | float3 | float4 | double
  | range | urange
  | string | pointer
  | enum | enum8 | enum16
  | struct | handle
  | array | table | iterator
  | block | function | lambda
  | tuple | variant
  deriving DecidableEq, Repr, Inhabited

namespace BaseType

def name : BaseType → String
  | none => "none" | auto => "auto" | aliased => "alias" | any => "any"
  | context => "__context" | lineInfo => "__lineInfo" | void => "void" | bool => "bool"
  | int8 => "int8" | uint8 => "uint8" | int16 => "int16" | uint16 => "uint16"
  | int => "int" | int2 => "int2" | int3 => "int3" | int4 => "int4"
  | uint => "uint" | uint2 => "uint2" | uint3 => "uint3" | uint4 => "uint4"
  | int64 => "int64" | uint64 => "uint64"
  | float => "float" | float2 => "float2" | float3 => "float3" | float4 => "float4"
  | double => "double" | range => "range" | urange => "urange"
  | string => "string" | pointer => "pointer"
  | enum => "enum" | enum8 => "enum8" | enum16 => "enum16"
  | struct => "structure" | handle => "handle"
  | array => "array" | table => "table" | iterator => "iterator"
  | block => "block" | function => "function" | lambda => "lambda"
  | tuple => "tuple" | variant => "variant"

def all : List BaseType :=
  [none, auto, aliased, any, context, lineInfo, void, bool, int8, uint8, int16, uint16, int, int2,
    int3, int4, uint, uint2, uint3, uint4, int64, uint64, float, float2, float3, float4, double,
    range, urange, string, pointer, enum, enum8, enum16, struct, handle, array, table, iterator,
    block, function, lambda, tuple, variant]

def ofName? (name : String) : Option BaseType := all.find? (·.name == name)

def isInteger : BaseType → Bool
  | int8 | uint8 | int16 | uint16 | int | uint | int64 | uint64 => true
  | _ => false

def isSigned : BaseType → Bool
  | int8 | int16 | int | int64 | float | double => true
  | _ => false

def isFloat : BaseType → Bool
  | float | double => true
  | _ => false

def isNumeric (b : BaseType) : Bool := b.isInteger || b.isFloat

def isEnum : BaseType → Bool
  | enum | enum8 | enum16 => true
  | _ => false

def components : BaseType → Nat
  | int2 | uint2 | float2 | range | urange => 2
  | int3 | uint3 | float3 => 3
  | int4 | uint4 | float4 => 4
  | bool | int8 | uint8 | int16 | uint16 | int | uint | int64 | uint64 | float | double => 1
  | _ => 0

def isVector (b : BaseType) : Bool := decide (1 < b.components)

def component : BaseType → BaseType
  | int2 | int3 | int4 | range => int
  | uint2 | uint3 | uint4 | urange => uint
  | float2 | float3 | float4 => float
  | b => b

/-- Size in bytes of a value, unless nested types or links decide it. -/
def size? : BaseType → Option Nat
  | none | auto | aliased | any | void => some 0
  | context | lineInfo => some 8
  | bool | int8 | uint8 | enum8 => some 1
  | int16 | uint16 | enum16 => some 2
  | int | uint | float | enum | function => some 4
  | int2 | uint2 | float2 | range | urange => some 8
  | int3 | uint3 | float3 => some 12
  | int4 | uint4 | float4 => some 16
  | int64 | uint64 | double => some 8
  | string | pointer | iterator | lambda => some 8
  | array => some 24
  | table => some 48
  | block => some 32
  | struct | handle | tuple | variant => Option.none

def align? : BaseType → Option Nat
  | none | auto | aliased | any | void => some 1
  | bool | int8 | uint8 | enum8 => some 1
  | int16 | uint16 | enum16 => some 2
  | int | uint | float | enum | function => some 4
  | int3 | uint3 | float3 => some 4
  | int2 | uint2 | float2 | range | urange => some 8
  | int4 | uint4 | float4 => some 16
  | int64 | uint64 | double => some 8
  | context | lineInfo => some 8
  | string | pointer | iterator | lambda | array | table | block => some 8
  | struct | handle | tuple | variant => Option.none

def bits? : BaseType → Option Nat
  | int8 | uint8 => some 8
  | int16 | uint16 => some 16
  | int | uint => some 32
  | int64 | uint64 => some 64
  | _ => Option.none

theorem mem_all (b : BaseType) : b ∈ all := by cases b <;> decide

theorem ofName?_name (b : BaseType) : ofName? b.name = some b := by cases b <;> decide

end BaseType

end Frontend
