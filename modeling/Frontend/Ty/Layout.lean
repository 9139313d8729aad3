import Frontend.Fault
import Frontend.Store.Basic

/-!
# Layout of types

Sizes and alignments in bytes. Sizes are 64-bit words: a sum or a product that leaves the word is a
fault. A structure is laid out field after field, each at a multiple of its alignment, and the whole
is padded to the alignment of the structure. Types reach each other through structures; as many
steps as there are structures are enough unless one contains itself.
-/

namespace Frontend

def sizeLimit : Nat := Nat.pow 2 64

def addSizes (a b : Nat) : Except Fault Nat :=
  if a + b < sizeLimit then .ok (a + b) else .error .sizeSumOverflow

def mulSizes (a b : Nat) : Except Fault Nat :=
  if a * b < sizeLimit then .ok (a * b) else .error .sizeProductOverflow

/-- The next multiple of an alignment; alignment zero counts as one. -/
def alignUp (size align : Nat) : Except Fault Nat := do
  let align := max align 1
  let sum ← addSizes size align
  return (sum - 1) / align * align

def maxAlign (aligns : List Nat) : Nat := aligns.max?.getD 1

inductive FieldOwner where
  | parent (id : StructId)
  | this
  deriving DecidableEq, Repr

namespace Store

def fieldOwner? (s : Store) (x : Struct) (name : String) : Option FieldOwner :=
  match x.parent?, (x.parent?.bind s.struct?).bind (·.field? name) with
  | some id, some _ => some (.parent id)
  | _, _ => (x.field? name).map fun _ => .this

def liveStruct? (s : Store) (t : Ty) : Option StructId := t.struct?.filter s.structs.isAlive

/-- A measure of an annotation: its own if it is a native type, else that of its structure. -/
def annotMeasure {α : Type} (s : Store) (t : Ty) (native : Nat → Nat → Bool → α)
    (ofStruct : StructId → Except Fault α) (unbound : α) : Except Fault α :=
  match t.annot?.bind s.annot? with
  | none => .ok unbound
  | some a =>
    match a.kind with
    | .handled size align pod _ => .ok (native size align pod)
    | _ =>
      match a.bound? with
      | some id => ofStruct id
      | none => .ok unbound

mutual

def alignWith (s : Store) (ofStruct : StructId → Except Fault Nat) : Ty → Except Fault Nat
  | t@{ args, .. } =>
    match t.base.align? with
    | some align => .ok align
    | none => do
      match t.base with
      | .struct =>
        match s.liveStruct? t with
        | some id => ofStruct id
        | none => return 1
      | .handle => s.annotMeasure t (fun _ align _ => align) ofStruct 1
      | .tuple => return maxAlign (← s.alignsWith ofStruct args)
      | .variant => return max (maxAlign (← s.alignsWith ofStruct args)) 4
      | _ => return 1

def alignsWith (s : Store) (ofStruct : StructId → Except Fault Nat) :
    List Ty → Except Fault (List Nat)
  | [] => .ok []
  | t :: ts => do
    let align ← s.alignWith ofStruct t
    return align :: (← s.alignsWith ofStruct ts)

end

def structAlignIn (s : Store) : Nat → StructId → Except Fault Nat
  | 0, _ => .error .endless
  | steps + 1, id =>
    match s.struct? id with
    | none => .ok 1
    | some x => do
      return max (maxAlign (← s.alignsWith (s.structAlignIn steps) (x.fields.map (·.type)))) 1

def structSteps (s : Store) : Nat := s.structs.slots.size + 1

def structAlign (s : Store) (id : StructId) : Except Fault Nat := s.structAlignIn s.structSteps id

def typeAlign (s : Store) (t : Ty) : Except Fault Nat := s.alignWith s.structAlign t

/-- Size of fixed dimensions of an element; one that is still to be inferred counts as zero. -/
def dimsSize (element : Nat) (dims : List Int32) : Except Fault Nat :=
  dims.foldlM (fun size d => mulSizes size d.toInt.toNat) element

mutual

def sizeWith (s : Store) (ofStruct : StructId → Except Fault Nat) : Ty → Except Fault Nat
  | t@{ args, .. } => do
    let element ← match t.base.size? with
      | some size => .ok size
      | none =>
        match t.base with
        | .struct =>
          match s.liveStruct? t with
          | some id => ofStruct id
          | none => .ok 0
        | .handle => s.annotMeasure t (fun size _ _ => size) ofStruct 0
        | .tuple => do
          let size ← s.tupleSizeWith ofStruct 0 args
          alignUp size (← s.typeAlign t)
        | .variant => do
          let payload := (← s.sizesWith ofStruct args).max?.getD 0
          let align ← s.typeAlign t
          let start ← alignUp 4 align
          alignUp (← addSizes start payload) align
        | _ => .ok 0
    dimsSize element t.dims

def tupleSizeWith (s : Store) (ofStruct : StructId → Except Fault Nat) :
    Nat → List Ty → Except Fault Nat
  | size, [] => .ok size
  | size, t :: ts => do
    let start ← alignUp size (← s.typeAlign t)
    let stop ← addSizes start (← s.sizeWith ofStruct t)
    s.tupleSizeWith ofStruct stop ts

def sizesWith (s : Store) (ofStruct : StructId → Except Fault Nat) :
    List Ty → Except Fault (List Nat)
  | [] => .ok []
  | t :: ts => do
    let size ← s.sizeWith ofStruct t
    return size :: (← s.sizesWith ofStruct ts)

end

/-- Offset at which a field may start: with the native layout of a plain parent, the first field
after those of the parent starts behind the whole parent. -/
def fieldBase (x : Struct) (ofStruct : StructId → Except Fault Nat) (size : Nat)
    (previous owner : Option FieldOwner) : Except Fault Nat :=
  if x.cppLayout && owner != previous && x.cppLayoutPod then
    match previous with
    | some (.parent id) => ofStruct id
    | _ => .ok size
  else .ok size

def fieldsEnd (s : Store) (x : Struct) (ofStruct : StructId → Except Fault Nat) :
    Nat → Option FieldOwner → List Field → Except Fault Nat
  | size, _, [] => .ok size
  | size, previous, f :: fs => do
    let owner := if x.cppLayout then s.fieldOwner? x f.name else previous
    let base ← fieldBase x ofStruct size previous owner
    let start ← alignUp base (← s.typeAlign f.type)
    let stop ← addSizes start (← s.sizeWith ofStruct f.type)
    s.fieldsEnd x ofStruct stop owner fs

def structSizeIn (s : Store) : Nat → StructId → Except Fault Nat
  | 0, _ => .error .endless
  | steps + 1, id =>
    match s.struct? id with
    | none => .ok 0
    | some x => do
      let stop ← s.fieldsEnd x (s.structSizeIn steps) 0 none x.fields
      alignUp stop (← s.structAlign id)

def structSize (s : Store) (id : StructId) : Except Fault Nat := s.structSizeIn s.structSteps id

def typeSize (s : Store) (t : Ty) : Except Fault Nat := s.sizeWith s.structSize t

/-- Size of the values of an annotation that is a type, zero for others. -/
def annotSize (s : Store) (a : Annot) : Except Fault Nat :=
  match a.kind with
  | .handled size _ _ _ => .ok size
  | _ => match a.bound? with
    | some id => s.structSize id
    | none => .ok 0

def annotAlign (s : Store) (a : Annot) : Except Fault Nat :=
  match a.kind with
  | .handled _ align _ _ => .ok align
  | _ => match a.bound? with
    | some id => s.structAlign id
    | none => .ok 1

end Store

end Frontend
