import Frontend.Arguments
import Frontend.Constant.Basic
import Frontend.Diagnostic
import Frontend.Record.Basic

/-!
# Values as records

Spans, constants, arguments and errors. A floating-point number is written by its bits, in
hexadecimal digits, and a 64-bit integer by its decimal digits.
-/

namespace Frontend

/-! ### Bits -/

def hexText (width n : Nat) : String :=
  let digits := Nat.toDigits 16 n
  .ofList (List.replicate (width - digits.length) '0' ++ digits)

private def hexDigit (c : Char) : Nat :=
  if c.isDigit then c.toNat - '0'.toNat else c.toNat - 'a'.toNat + 10

def hexValue (s : String) : Nat := s.toList.foldl (fun n c => 16 * n + hexDigit c) 0

namespace Record

def asFloat32 (r : Record) : Float32 := .ofBits (.ofNat (hexValue (r.asText?.getD "")))

def asFloat (r : Record) : Float := .ofBits (.ofNat (hexValue (r.asText?.getD "")))

/-- All numbers that are none are written alike. -/
def ofFloat32 (x : Float32) : Record := text (if x.isNaN then "nan" else hexText 8 x.toBits.toNat)

def ofFloat (x : Float) : Record := text (if x.isNaN then "nan" else hexText 16 x.toBits.toNat)

def ofInt64 (x : Int64) : Record := text (toString x.toInt)

/-! ### Spans -/

def asSpan : Record → Span
  | list [file, start, stop] => .inFile file.asNat start.asNat stop.asNat
  | _ => .builtin

def spanOf (r : Record) (key : String) : Span := ((r.get? key).map asSpan).getD .builtin

def span (r : Record) : Span := r.spanOf "at"

def ofSpan (s : Span) : Record :=
  match s.file with
  | .builtin => null
  | .source file => list [ofNat file, ofNat s.start, ofNat s.stop]

/-! ### Constants and arguments -/

def asVector {α : Type} [Inhabited α] (n : Nat) (f : Record → α) (r : Record) : Vector α n :=
  .ofFn fun i => (r.elements.map f).getD i default

/-- A constant: its type under `t` and its value under `v`. -/
def asConstant? (r : Record) : Option Constant := do
  let v ← r.get? "v"
  let ints (n : Nat) := asVector n (fun x => Int32.ofInt x.asInt) v
  let words (n : Nat) := asVector n (fun x => UInt32.ofInt x.asInt) v
  let floats (n : Nat) := asVector n asFloat32 v
  match ← BaseType.ofName? (r.string "t") with
  | .bool => return .bool v.isTrue
  | .float => return .float v.asFloat32
  | .double => return .double v.asFloat
  | .int2 => return .int2 (ints 2)
  | .int3 => return .int3 (ints 3)
  | .int4 => return .int4 (ints 4)
  | .uint2 => return .uint2 (words 2)
  | .uint3 => return .uint3 (words 3)
  | .uint4 => return .uint4 (words 4)
  | .float2 => return .float2 (floats 2)
  | .float3 => return .float3 (floats 3)
  | .float4 => return .float4 (floats 4)
  | .range => return .range (ints 2)
  | .urange => return .urange (words 2)
  | type => Constant.wrapTo? type v.asInt

private def ofInts {n : Nat} (v : Vector Int32 n) : Record :=
  list (v.toList.map fun x => int x.toInt)

private def ofWords {n : Nat} (v : Vector UInt32 n) : Record :=
  list (v.toList.map fun x => ofNat x.toNat)

private def ofFloats {n : Nat} (v : Vector Float32 n) : Record := list (v.toList.map ofFloat32)

def ofConstantValue : Constant → Record
  | .bool b => bool b
  | .int64 x => ofInt64 x
  | .uint64 x => text (toString x.toNat)
  | .float x => ofFloat32 x
  | .double x => ofFloat x
  | .int2 v => ofInts v
  | .int3 v => ofInts v
  | .int4 v => ofInts v
  | .uint2 v => ofWords v
  | .uint3 v => ofWords v
  | .uint4 v => ofWords v
  | .float2 v => ofFloats v
  | .float3 v => ofFloats v
  | .float4 v => ofFloats v
  | .range v => ofInts v
  | .urange v => ofWords v
  | c => ofOption int c.integer?

def ofConstant (c : Constant) : Record :=
  object [("t", text c.baseType.name), ("v", ofConstantValue c)]

def baseNamed (name : String) : BaseType := (BaseType.ofName? name).getD .none

def asArgument (r : Record) : ArgumentValue :=
  match r.given? "bool", r.given? "int", r.given? "float" with
  | some b, _, _ => .bool b.isTrue
  | _, some x, _ => .int (.ofInt x.asInt)
  | _, _, some x => .float x.asFloat32
  | _, _, _ => .string (r.string "string")

def argumentsOf (r : Record) (key : String) : Arguments :=
  (r.elementsOf key).foldl (fun a x =>
    match x with
    | list [text name, value] => a.push name value.asArgument
    | _ => a) .empty

def ofArguments (a : Arguments) : Record :=
  list (a.toList.map fun x => ofTexts [x.name, x.value.baseType.name, x.value.text])

/-! ### Errors -/

def ofError (e : CompileError) : Record :=
  ofMembers [[("code", text e.code), ("kind", text e.kind.name), ("text", text e.text)],
    optional "subtitle" (ofOption text e.subtitle),
    optional "bound" (list (e.boundNotes.map fun n => list [ofSpan n.1, text n.2])),
    optional "free" (ofTexts e.freeNotes)]

def ofDiagnostic (d : Diagnostic) : Record :=
  object [("code", text d.code), ("message", text d.message), ("notes", ofTexts d.notes),
    ("labels", list (d.labels.map fun l =>
      list [text (if l.primary then "primary" else "secondary"), ofNat l.file, ofNat l.start,
        ofNat l.stop, text l.message]))]

end Record

end Frontend
