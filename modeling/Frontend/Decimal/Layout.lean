import Frontend.Decimal.Shortest

/-!
# Text of floating-point numbers

Two layouts of the shortest decimal: the plain one is always positional, and the marked one keeps
`.0` on whole numbers and uses an exponent for numbers far from one.
-/

namespace Frontend

structure FloatLayout where
  /-- Whole numbers end in `.0`. -/
  marksWhole : Bool
  /-- Numbers below `10 ^ -4` and from `10 ^ 16` on have an exponent. -/
  allowsExponent : Bool

namespace FloatLayout

def plain : FloatLayout := ⟨false, false⟩

def marked : FloatLayout := ⟨true, true⟩

end FloatLayout

namespace Decimal

def digitText (d : Decimal) : String := toString d.digits

def magnitude (d : Decimal) : Int := d.exponent + d.digitText.length - 1

def positional (d : Decimal) (marksWhole : Bool) : String :=
  let digits := d.digitText
  if 0 ≤ d.exponent then
    digits.pushn '0' d.exponent.toNat ++ (if marksWhole then ".0" else "")
  else
    let places := (-d.exponent).toNat
    if digits.length ≤ places then
      "0." ++ "".pushn '0' (places - digits.length) ++ digits
    else
      String.ofList (digits.toList.take (digits.length - places)) ++ "." ++
        String.ofList (digits.toList.drop (digits.length - places))

def scientific (d : Decimal) : String :=
  match d.digitText.toList with
  | [] => ""
  | [c] => c.toString ++ "e" ++ toString d.magnitude
  | c :: cs => c.toString ++ "." ++ String.ofList cs ++ "e" ++ toString d.magnitude

def text (layout : FloatLayout) (d : Decimal) : String :=
  if layout.allowsExponent && (decide (d.magnitude < -4) || decide (16 ≤ d.magnitude)) then
    d.scientific
  else d.positional layout.marksWhole

end Decimal

def FloatClass.text (layout : FloatLayout) : FloatClass → String
  | .nan => "NaN"
  | .infinity negative => if negative then "-inf" else "inf"
  | .zero negative =>
    (if negative then "-0" else "0") ++ (if layout.marksWhole then ".0" else "")
  | .finite negative value => (if negative then "-" else "") ++ value.shortest.text layout

def floatText (layout : FloatLayout) (x : Float) : String :=
  (FloatFormat.double.classify x.toBits.toNat).text layout

def float32Text (layout : FloatLayout) (x : Float32) : String :=
  (FloatFormat.single.classify x.toBits.toNat).text layout

end Frontend
