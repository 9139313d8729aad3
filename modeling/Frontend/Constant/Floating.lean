/-!
# Words and floating-point numbers

Conversions between signed 64-bit words and floating-point numbers, and between the two formats of
these. A number that a format does not have is rounded to the nearest one that it has, a tie to the
one with the even mantissa.
-/

namespace Frontend.Floating

open Float.Model (Format UnpackedFloat)

def ofWord (x : Int64) : Float := ⟨.ofInt64 x⟩

/-- A double without its fraction. Beyond the words it stops at the last one, and what is no number
is zero. -/
def toWord (x : Float) : Int64 := x.toModel.toInt64

def singleToWord (x : Float32) : Int64 := x.toModel.toInt64

def fit (format : Format) : UnpackedFloat → UnpackedFloat
  | .finite sign mantissa exponent _ => .round format sign mantissa exponent
  | x => x

def narrow (x : Float) : Float32 := ⟨.pack (fit .binary32 x.toModel.unpack)⟩

def widen (x : Float32) : Float := ⟨.pack (fit .binary64 x.toModel.unpack)⟩

end Frontend.Floating
