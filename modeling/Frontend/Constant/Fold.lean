import Frontend.Constant.Basic

/-!
# Operators on constants

The value of an operator applied to constants, if it can be computed ahead of time. Integers are
computed exactly and then wrapped to their width. Division and remainder by zero, shifts out of
range and operands of different types are left to the program.
-/

namespace Frontend.Constant

def fold1 (op : String) (c : Constant) : Option Constant :=
  match op, c with
  | "!", bool b => some (bool !b)
  | "-", float x => some (float (-x))
  | "-", double x => some (double (-x))
  | "+", c => if c.baseType.isNumeric then some c else none
  | "-", c => c.integer?.bind fun x => wrapTo? c.baseType (-x)
  | "~", c => c.integer?.bind fun x => wrapTo? c.baseType (-x - 1)
  | _, _ => none

def compareBy (op : String) (o : Ordering) : Option Constant :=
  match op with
  | "==" => some (bool (o == .eq))
  | "!=" => some (bool (o != .eq))
  | "<" => some (bool (o == .lt))
  | "<=" => some (bool (o != .gt))
  | ">" => some (bool (o == .gt))
  | ">=" => some (bool (o != .lt))
  | _ => none

def foldBools (op : String) (x y : Bool) : Option Constant :=
  match op with
  | "==" => some (bool (x == y))
  | "!=" | "^^" => some (bool (x != y))
  | "&&" => some (bool (x && y))
  | "||" => some (bool (x || y))
  | _ => none

def compareFloats? (x y : Float) : Option Ordering :=
  if x < y then some .lt else if x == y then some .eq else if y < x then some .gt else none

def foldFloats (op : String) (x y : Float) (make : Float → Constant) : Option Constant :=
  match op with
  | "+" => some (make (x + y))
  | "-" => some (make (x - y))
  | "*" => some (make (x * y))
  | "/" => if y != 0 then some (make (x / y)) else none
  | _ => (compareFloats? x y).bind (compareBy op)

/-- Bitwise operators act on the two's complement of sufficient width, which is 65 bits for a signed
or unsigned 64-bit word. -/
def bitwise (f : BitVec 65 → BitVec 65 → BitVec 65) (x y : Int) : Int :=
  (f (.ofInt 65 x) (.ofInt 65 y)).toInt

/-- Operators on the exact values of two constants of one integer type of `bits` bits. -/
def foldIntegers (op : String) (type : BaseType) (bits : Nat) (x y : Int) : Option Constant :=
  match op with
  | "+" => wrapTo? type (x + y)
  | "-" => wrapTo? type (x - y)
  | "*" => wrapTo? type (x * y)
  | "/" => if y = 0 then none else wrapTo? type (x.tdiv y)
  | "%" => if y = 0 then none else wrapTo? type (x.tmod y)
  | "&" => wrapTo? type (bitwise (· &&& ·) x y)
  | "|" => wrapTo? type (bitwise (· ||| ·) x y)
  | "^" => wrapTo? type (bitwise (· ^^^ ·) x y)
  | "<<" => if 0 ≤ y ∧ y < bits then wrapTo? type (x <<< y.toNat) else none
  | ">>" => if 0 ≤ y ∧ y < bits then wrapTo? type (x >>> y.toNat) else none
  | _ => compareBy op (compare x y)

def fold2 (op : String) (a b : Constant) : Option Constant :=
  if a.baseType ≠ b.baseType then none
  else match a, b with
    | bool x, bool y => foldBools op x y
    | float x, float y =>
      foldFloats op (Floating.widen x) (Floating.widen y) fun z => float (Floating.narrow z)
    | double x, double y => foldFloats op x y double
    | a, b =>
      match a.baseType.bits?, a.integer?, b.integer? with
      | some bits, some x, some y => foldIntegers op a.baseType bits x y
      | _, _, _ => none

end Frontend.Constant
