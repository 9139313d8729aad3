import Frontend.BaseType
import Frontend.Constant.Floating
import Frontend.Decimal.Layout

/-!
# Constants

Values of numeric, boolean, vector and range literals. Integers are words of their width; `wrapTo?`
makes the word of an integer type that is congruent to a given integer, and `integer?` reads the
integer back.
-/

namespace Frontend

inductive Constant where
  | bool (value : Bool)
  | int8 (value : Int8)
  | uint8 (value : UInt8)
  | int16 (value : Int16)
  | uint16 (value : UInt16)
  | int (value : Int32)
  | uint (value : UInt32)
  | int64 (value : Int64)
  | uint64 (value : UInt64)
  | float (value : Float32)
  | double (value : Float)
  | int2 (values : Vector Int32 2)
  | int3 (values : Vector Int32 3)
  | int4 (values : Vector Int32 4)
  | uint2 (values : Vector UInt32 2)
  | uint3 (values : Vector UInt32 3)
  | uint4 (values : Vector UInt32 4)
  | float2 (values : Vector Float32 2)
  | float3 (values : Vector Float32 3)
  | float4 (values : Vector Float32 4)
  | range (values : Vector Int32 2)
  | urange (values : Vector UInt32 2)
  deriving Inhabited

namespace Constant

def baseType : Constant → BaseType
  | bool _ => .bool | int8 _ => .int8 | uint8 _ => .uint8 | int16 _ => .int16
  | uint16 _ => .uint16 | int _ => .int | uint _ => .uint | int64 _ => .int64
  | uint64 _ => .uint64 | float _ => .float | double _ => .double
  | int2 _ => .int2 | int3 _ => .int3 | int4 _ => .int4
  | uint2 _ => .uint2 | uint3 _ => .uint3 | uint4 _ => .uint4
  | float2 _ => .float2 | float3 _ => .float3 | float4 _ => .float4
  | range _ => .range | urange _ => .urange

def integer? : Constant → Option Int
  | int8 x => some x.toInt
  | uint8 x => some x.toNat
  | int16 x => some x.toInt
  | uint16 x => some x.toNat
  | int x => some x.toInt
  | uint x => some x.toNat
  | int64 x => some x.toInt
  | uint64 x => some x.toNat
  | _ => none

/-- The constant of an integer type congruent to `x` modulo two to its width. -/
def wrapTo? (type : BaseType) (x : Int) : Option Constant :=
  match type with
  | .int8 => some (int8 (.ofInt x))
  | .uint8 => some (uint8 (.ofInt x))
  | .int16 => some (int16 (.ofInt x))
  | .uint16 => some (uint16 (.ofInt x))
  | .int => some (int (.ofInt x))
  | .uint => some (uint (.ofInt x))
  | .int64 => some (int64 (.ofInt x))
  | .uint64 => some (uint64 (.ofInt x))
  | _ => none

/-- An integer constant as a signed 64-bit word; the upper half of `uint64` becomes negative. -/
def asInt64? (c : Constant) : Option Int64 := c.integer?.map .ofInt

/-- A number as a double. Integers go through their signed 64-bit word. -/
def asFloat? : Constant → Option Float
  | float x => some (Floating.widen x)
  | double x => some x
  | c => c.asInt64?.map Floating.ofWord

def asBool? : Constant → Option Bool
  | bool b => some b
  | _ => none

def ofInt64? (type : BaseType) (x : Int64) : Option Constant := wrapTo? type x.toInt

/-- A constant as a signed 64-bit word on the way to another integer type; floating-point numbers
lose their fraction and stop at the ends of the range. -/
def toWord? : Constant → Option Int64
  | bool b => some (if b then 1 else 0)
  | float x => some (Floating.singleToWord x)
  | double x => some (Floating.toWord x)
  | c => c.asInt64?

def truth? : Constant → Option Bool
  | float x => some (x != 0)
  | double x => some (x != 0)
  | c => c.asInt64?.map (· != 0)

/-- A numeric cast. Vectors and ranges convert to their own type only. -/
def convert? (c : Constant) (type : BaseType) : Option Constant :=
  if c.baseType = type then some c
  else match type with
    | .bool => c.truth?.map bool
    | .float => c.asFloat?.map fun x => float (Floating.narrow x)
    | .double => c.asFloat?.map double
    | _ => if type.isInteger then c.toWord?.bind (ofInt64? type) else none

theorem isSome_wrapTo (type : BaseType) (x : Int) :
    (wrapTo? type x).isSome = type.isInteger := by cases type <;> rfl

end Constant

end Frontend
