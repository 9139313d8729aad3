import Frontend.Constant.Basic

/-!
# Text of constants

A constant as a literal: unsigned and 64-bit integers and floating-point numbers carry a suffix,
vectors are written as calls of their type. Inside a string only the bare number is interpolated.
-/

namespace Frontend.Constant

private def vectorText (name : String) (values : List String) : String :=
  name ++ "(" ++ ",".intercalate values ++ ")"

private def floatTexts {n : Nat} (v : Vector Float32 n) : List String :=
  v.toList.map (float32Text .plain)

private def wordTexts {α : Type} [ToString α] {n : Nat} (v : Vector α n) : List String :=
  v.toList.map toString

def text : Constant → String
  | bool b => if b then "true" else "false"
  | int8 x => toString x.toInt
  | uint8 x => toString x.toNat ++ "u8"
  | int16 x => toString x.toInt
  | uint16 x => toString x.toNat ++ "u16"
  | int x => toString x.toInt
  | uint x => toString x.toNat ++ "u"
  | int64 x => toString x.toInt ++ "l"
  | uint64 x => toString x.toNat ++ "ul"
  | float x => float32Text .marked x ++ "f"
  | double x => floatText .marked x ++ "lf"
  | int2 v => vectorText "int2" (wordTexts v)
  | int3 v => vectorText "int3" (wordTexts v)
  | int4 v => vectorText "int4" (wordTexts v)
  | uint2 v => vectorText "uint2" (wordTexts v)
  | uint3 v => vectorText "uint3" (wordTexts v)
  | uint4 v => vectorText "uint4" (wordTexts v)
  | float2 v => vectorText "float2" (floatTexts v)
  | float3 v => vectorText "float3" (floatTexts v)
  | float4 v => vectorText "float4" (floatTexts v)
  | range v => vectorText "range" (wordTexts v)
  | urange v => vectorText "urange" (wordTexts v)

def interpolated? : Constant → Option String
  | bool b => some (if b then "true" else "false")
  | float x => some (float32Text .plain x)
  | double x => some (floatText .plain x)
  | c => c.integer?.map toString

end Frontend.Constant
