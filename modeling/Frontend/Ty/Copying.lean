import Frontend.Ty.Layout

/-!
# How values may be copied

Whether a type is plain data, and whether its values can be copied, moved or cloned. Structures,
tuples and variants ask their parts, and an annotation asks the structure that it is bound to.
-/

namespace Frontend

inductive CopyQuery where
  /-- Copied bit by bit. -/
  | pod
  | copy
  | move
  | clone
  deriving DecidableEq, Repr

namespace CopyQuery

def base? : CopyQuery → BaseType → Option Bool
  | pod, .string | pod, .array | pod, .table | pod, .block | pod, .lambda | pod, .iterator =>
    some false
  | copy, .array | copy, .table | copy, .block | copy, .lambda | copy, .iterator => some false
  | move, .block | move, .context | move, .lineInfo => some false
  | clone, .block | clone, .iterator => some false
  | clone, .array | clone, .table => none
  | pod, .handle | copy, .handle => none
  | _, .struct | _, .tuple | _, .variant => none
  | _, _ => some true

end CopyQuery

namespace Store

mutual

def copyWith (s : Store) (ofStruct : CopyQuery → StructId → Except Fault Bool) (q : CopyQuery) :
    Ty → Except Fault Bool
  | t@{ first, second, args, .. } =>
    match q.base? t.base with
    | some answer => .ok answer
    | none =>
      match t.base with
      | .struct =>
        match s.liveStruct? t with
        | some id => ofStruct q id
        | none => .ok false
      | .handle => s.annotMeasure t (fun _ _ pod => pod) (ofStruct .pod) false
      | .array | .table => do
        if ← s.copyOptionWith ofStruct q first then
          if ← s.copyOptionWith ofStruct q second then s.copyAllWith ofStruct q args
          else return false
        else return false
      | _ => s.copyAllWith ofStruct q args

def copyOptionWith (s : Store) (ofStruct : CopyQuery → StructId → Except Fault Bool)
    (q : CopyQuery) : Option Ty → Except Fault Bool
  | none => .ok true
  | some t => s.copyWith ofStruct q t

/-- Whether the answer is yes for every type, asked in order up to the first no. -/
def copyAllWith (s : Store) (ofStruct : CopyQuery → StructId → Except Fault Bool)
    (q : CopyQuery) : List Ty → Except Fault Bool
  | [] => .ok true
  | t :: ts => do
    if ← s.copyWith ofStruct q t then s.copyAllWith ofStruct q ts else return false

end

def structCopyIn (s : Store) : Nat → CopyQuery → StructId → Except Fault Bool
  | 0, _, _ => .error .endless
  | steps + 1, q, id =>
    match s.struct? id with
    | none => .ok false
    | some x => s.copyAllWith (s.structCopyIn steps) q (x.fields.map (·.type))

def structCopy (s : Store) (q : CopyQuery) (id : StructId) : Except Fault Bool :=
  s.structCopyIn s.structSteps q id

def typeCopy (s : Store) (q : CopyQuery) (t : Ty) : Except Fault Bool := s.copyWith s.structCopy q t

def annotIsPod (s : Store) (a : Annot) : Except Fault Bool :=
  match a.kind with
  | .handled _ _ pod _ => .ok pod
  | _ => match a.bound? with
    | some id => s.structCopy .pod id
    | none => .ok false

def isRefType (s : Store) (t : Ty) : Bool :=
  !t.dims.isEmpty ||
    match t.base with
    | .struct | .array | .table | .tuple | .variant => true
    | .handle => ((t.annot?.bind s.annot?).map (·.isRefType)).getD false
    | _ => false

/-- Whether a value of the type is a reference that would not be passed as one anyway. -/
def isRef (s : Store) (t : Ty) : Bool := t.isRefFlag && !s.isRefType t

end Store

end Frontend
