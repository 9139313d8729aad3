import Frontend.BaseType
import Frontend.Decimal.Layout

/-!
# Named arguments

An ordered list of named values: the arguments of an annotation, or the options of a program. A look
up finds the first argument of a name, and `set` changes that one or appends.
-/

namespace Frontend

inductive ArgumentValue where
  | bool (value : Bool)
  | int (value : Int32)
  | float (value : Float32)
  | string (value : String)
  deriving Inhabited

namespace ArgumentValue

def baseType : ArgumentValue → BaseType
  | bool _ => .bool
  | int _ => .int
  | float _ => .float
  | string _ => .string

def text : ArgumentValue → String
  | bool b => if b then "true" else "false"
  | int x => toString x.toInt
  | float x => float32Text .plain x
  | string s => "\"" ++ s ++ "\""

end ArgumentValue

structure Argument where
  name : String
  value : ArgumentValue
  deriving Inhabited

structure Arguments where
  toList : List Argument := []
  deriving Inhabited

namespace Arguments

def empty : Arguments := ⟨[]⟩

def size (a : Arguments) : Nat := a.toList.length

def isEmpty (a : Arguments) : Bool := a.toList.isEmpty

def push (a : Arguments) (name : String) (value : ArgumentValue) : Arguments :=
  ⟨a.toList ++ [⟨name, value⟩]⟩

def find? (a : Arguments) (name : String) : Option ArgumentValue :=
  (a.toList.find? (·.name == name)).map (·.value)

private def setFirst (name : String) (value : ArgumentValue) : List Argument → List Argument
  | [] => []
  | x :: xs => if x.name == name then ⟨name, value⟩ :: xs else x :: setFirst name value xs

def set (a : Arguments) (name : String) (value : ArgumentValue) : Arguments :=
  if (a.find? name).isSome then ⟨setFirst name value a.toList⟩ else a.push name value

/-- A value of another kind than asked for counts as absent. -/
def getBool (a : Arguments) (name : String) (default : Bool) : Bool :=
  match a.find? name with
  | some (.bool b) => b
  | _ => default

def getInt (a : Arguments) (name : String) (default : Int32) : Int32 :=
  match a.find? name with
  | some (.int x) => x
  | _ => default

def getString (a : Arguments) (name : String) (default : String) : String :=
  match a.find? name with
  | some (.string s) => s
  | _ => default

def text (a : Arguments) : String :=
  ",".intercalate (a.toList.map fun x => s!"{x.name}:{x.value.baseType.name}={x.value.text}")

end Arguments

end Frontend
