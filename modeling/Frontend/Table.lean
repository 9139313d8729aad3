/-!
# Tables of objects

Declarations refer to each other by identity. An `Id` names an object of one kind, and a `Table`
holds the objects that still exist; an id whose object is gone looks up to nothing, and no id is
ever handed out twice.
-/

namespace Frontend

inductive ObjectKind where
  | function | struct | enumeration | annot | var | module | rewriter
  deriving DecidableEq, Repr

structure Id (kind : ObjectKind) where
  index : Nat
  deriving DecidableEq, Repr, Inhabited

abbrev FunctionId := Id .function
abbrev StructId := Id .struct
abbrev EnumId := Id .enumeration
abbrev AnnotId := Id .annot
abbrev VarId := Id .var
abbrev ModuleId := Id .module
abbrev RewriterId := Id .rewriter

/-- The objects of one kind; slot `i` is empty once the object `i` is gone. -/
structure Table (kind : ObjectKind) (α : Type) where
  slots : Array (Option α) := #[]

namespace Table

variable {kind : ObjectKind} {α : Type}

instance : Inhabited (Table kind α) := ⟨⟨#[]⟩⟩

def get? (t : Table kind α) (id : Id kind) : Option α := t.slots[id.index]?.join

def isAlive (t : Table kind α) (id : Id kind) : Bool := (t.get? id).isSome

def nextId (t : Table kind α) : Id kind := ⟨t.slots.size⟩

def push (t : Table kind α) (a : α) : Table kind α := ⟨t.slots.push (some a)⟩

def modify (t : Table kind α) (id : Id kind) (f : α → α) : Table kind α :=
  ⟨t.slots.modify id.index (·.map f)⟩

def erase (t : Table kind α) (id : Id kind) : Table kind α :=
  ⟨t.slots.modify id.index fun _ => none⟩

def restrict (t : Table kind α) (p : Id kind → Bool) : Table kind α :=
  ⟨t.slots.mapIdx fun i a => if p ⟨i⟩ then a else none⟩

def count (t : Table kind α) : Nat := t.slots.foldl (fun n a => if a.isSome then n + 1 else n) 0

def toList (t : Table kind α) : List (Id kind × α) :=
  t.slots.toList.zipIdx.filterMap fun s => s.1.map fun a => (⟨s.2⟩, a)

@[simp] theorem get?_push_nextId (t : Table kind α) (a : α) :
    (t.push a).get? t.nextId = some a := by
  simp [get?, push, nextId]

theorem get?_push_of_ne (t : Table kind α) (a : α) {id : Id kind} (h : id ≠ t.nextId) :
    (t.push a).get? id = t.get? id := by
  have : id.index ≠ t.slots.size := fun e => h (by cases id; simp_all [nextId])
  simp only [get?, push, Array.getElem?_push, this, if_false]

@[simp] theorem get?_nextId (t : Table kind α) : t.get? t.nextId = none := by
  simp [get?, nextId]

@[simp] theorem get?_modify_self (t : Table kind α) (id : Id kind) (f : α → α) :
    (t.modify id f).get? id = (t.get? id).map f := by
  simp only [get?, modify, Array.getElem?_modify, if_true]
  cases t.slots[id.index]? <;> simp

theorem get?_modify_of_ne (t : Table kind α) {id other : Id kind} (f : α → α) (h : id ≠ other) :
    (t.modify other f).get? id = t.get? id := by
  have : other.index ≠ id.index := fun e => h (by cases id; cases other; simp_all)
  simp only [get?, modify, Array.getElem?_modify, this, if_false]

@[simp] theorem get?_erase_self (t : Table kind α) (id : Id kind) :
    (t.erase id).get? id = none := by
  simp only [get?, erase, Array.getElem?_modify, if_true]
  cases t.slots[id.index]? <;> simp

theorem get?_erase_of_ne (t : Table kind α) {id other : Id kind} (h : id ≠ other) :
    (t.erase other).get? id = t.get? id := by
  have : other.index ≠ id.index := fun e => h (by cases id; cases other; simp_all)
  simp only [get?, erase, Array.getElem?_modify, this, if_false]

theorem get?_restrict (t : Table kind α) (p : Id kind → Bool) (id : Id kind) :
    (t.restrict p).get? id = if p id then t.get? id else none := by
  simp only [get?, restrict, Array.getElem?_mapIdx]
  cases t.slots[id.index]? <;> simp

end Table

end Frontend
