/-!
# Records

Plain data by which trees and declarations are stored and exchanged: truth values, integers, texts,
lists, and objects with named members. A member that is missing reads as a default, and members
that are empty are mostly left out.
-/

namespace Frontend

inductive Record where
  | null
  | bool (value : Bool)
  | int (value : Int)
  | text (value : String)
  | list (elements : List Record)
  | object (members : List (String × Record))
  deriving Inhabited

abbrev Members := List (String × Record)

namespace Record

mutual

def depth : Record → Nat
  | list es => depthList es + 1
  | object ms => depthMembers ms + 1
  | _ => 1

def depthList : List Record → Nat
  | [] => 0
  | e :: es => max e.depth (depthList es)

def depthMembers : List (String × Record) → Nat
  | [] => 0
  | (_, m) :: ms => max m.depth (depthMembers ms)

end

/-! ### Reading -/

def isNull : Record → Bool
  | null => true
  | _ => false

def given? (r : Record) (key : String) : Option Record :=
  match r with
  | object ms => ms.lookup key
  | _ => none

/-- A member; one that is null counts as missing. -/
def get? (r : Record) (key : String) : Option Record := (r.given? key).filter (!·.isNull)

def has (r : Record) (key : String) : Bool := (r.get? key).isSome

def asText? : Record → Option String
  | text s => some s
  | _ => none

/-- An integer, as such or by its digits. -/
def asInt : Record → Int
  | int x => x
  | text s => s.toInt?.getD 0
  | _ => 0

def asNat (r : Record) : Nat := r.asInt.toNat

def isTrue : Record → Bool
  | bool b => b
  | _ => false

def elements : Record → List Record
  | list es => es
  | _ => []

def text? (r : Record) (key : String) : Option String := (r.get? key).bind asText?

def textOr (r : Record) (key default : String) : String := (r.text? key).getD default

def string (r : Record) (key : String) : String := r.textOr key ""

def flag (r : Record) (key : String) : Bool := (r.get? key).any isTrue

def nat? (r : Record) (key : String) : Option Nat := (r.get? key).map asNat

def intOr (r : Record) (key : String) (default : Int) : Int := ((r.get? key).map asInt).getD default

def elementsOf (r : Record) (key : String) : List Record := ((r.get? key).map elements).getD []

def textsOf (r : Record) (key : String) : List String := (r.elementsOf key).filterMap asText?

/-! ### Writing -/

def isBlank : Record → Bool
  | null | bool false | text "" | list [] => true
  | _ => false

def optional (key : String) (value : Record) : Members :=
  if value.isBlank then [] else [(key, value)]

def ofMembers (groups : List Members) : Record := object groups.flatten

def ofTexts (texts : List String) : Record := list (texts.map text)

def ofNat (n : Nat) : Record := int n

def ofOption {α : Type} (f : α → Record) (a : Option α) : Record := (a.map f).getD null

def ofFlags (flags : List (String × Bool)) : Record := ofTexts ((flags.filter (·.2)).map (·.1))

end Record

end Frontend
