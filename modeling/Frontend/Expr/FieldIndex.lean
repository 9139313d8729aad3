import Frontend.Expr.Basic

/-!
# Positions of tuple elements and variant alternatives

An access to a tuple names the element by position (`_0`, `_1` and so on, `_first`, `_last`) or by
its name in the tuple type; an access to a variant names the alternative.
-/

namespace Frontend

/-- The number that decimal digits stand for, after an optional plus sign, if it fits a word. -/
def decimalIndex? (text : String) : Option Nat :=
  let digits := match text.toList with
    | '+' :: rest => rest
    | cs => cs
  if !digits.isEmpty && digits.all Char.isDigit then
    let n := digits.foldl (fun n c => 10 * n + (c.toNat - '0'.toNat)) 0
    if n < Nat.pow 2 64 then some n else none
  else none

/-- The type whose parts are accessed, behind a pointer if there is one. -/
def Ty.accessed? (t : Ty) : Option Ty := if t.isPointer then t.first else some t

def tupleIndex? (name : String) (type : Option Ty) : Option Nat :=
  let positional := match name.toList with
    | '_' :: rest => decimalIndex? (.ofList rest)
    | _ => none
  positional <|> do
    let t ← type.bind Ty.accessed?
    match name with
    | "_first" => return 0
    | "_last" => if t.args.isEmpty then none else return t.args.length - 1
    | _ => t.argIndex? name

def variantIndex? (name : String) (type : Option Ty) : Option Nat :=
  (type.bind Ty.accessed?).bind (·.argIndex? name)

end Frontend
