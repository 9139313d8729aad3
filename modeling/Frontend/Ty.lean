import Frontend.BaseType
import Frontend.Span
import Frontend.Table

/-!
# Types

A type is a value: a base type with qualifiers, dimensions and nested types. Links to structures,
enumerations and annotations are identities, so a type can outlive the declaration it names. Two
types are the same when everything that tells overloads apart agrees.
-/

namespace Frontend

structure Ty where
  base : BaseType
  /-- Pointer target, array element, table key, iterator element, or result of a callable. -/
  first : Option Ty := none
  /-- Table value. -/
  second : Option Ty := none
  /-- Arguments of a callable, tuple elements or variant alternatives. -/
  args : List Ty := []
  argNames : List String := []
  /-- Fixed dimensions, outermost first. -/
  dims : List Int32 := []
  aliasName : String := ""
  isConst : Bool := false
  isRefFlag : Bool := false
  dropsConst : Bool := false
  dropsRef : Bool := false
  dropsDims : Bool := false
  isTemporary : Bool := false
  isImplicit : Bool := false
  struct? : Option StructId := none
  enum? : Option EnumId := none
  annot? : Option AnnotId := none
  span : Span := .builtin
  deriving Inhabited

namespace Ty

def autoDim : Int32 := -1

def ofBase (base : BaseType) : Ty := { base }

def auto : Ty := ofBase .auto

/-- The type of a slot whose type is away. -/
def blank : Ty := ofBase .none

/-- A type known by name only. -/
def ofAlias (name : String) : Ty := { base := .aliased, aliasName := name }

def pointer (target : Ty) : Ty := { base := .pointer, first := some target }

def array (element : Ty) : Ty := { base := .array, first := some element }

def table (key value : Ty) : Ty := { base := .table, first := some key, second := some value }

def block (result : Ty) (args : List Ty) : Ty := { base := .block, first := some result, args }

def tuple (args : List Ty) (argNames : List String) : Ty := { base := .tuple, args, argNames }

def variant (args : List Ty) (argNames : List String) : Ty := { base := .variant, args, argNames }

def struct (id : StructId) : Ty := { base := .struct, struct? := some id }

def handle (id : AnnotId) : Ty := { base := .handle, annot? := some id }

def withSpan (t : Ty) (span : Span) : Ty := { t with span }

def named (t : Ty) (name : String) : Ty := { t with aliasName := name }

def nested (t : Ty) : List Ty := t.first.toList ++ t.second.toList ++ t.args

mutual

def anyNested (p : Ty → Bool) : Ty → Bool
  | t@{ first, second, args, .. } =>
    p t || anyNestedOption p first || anyNestedOption p second || anyNestedList p args

def anyNestedOption (p : Ty → Bool) : Option Ty → Bool
  | none => false
  | some t => anyNested p t

def anyNestedList (p : Ty → Bool) : List Ty → Bool
  | [] => false
  | t :: ts => anyNested p t || anyNestedList p ts

end

mutual

/-- Levels of nesting, of which the type itself is one. -/
def depth : Ty → Nat
  | { first, second, args, .. } =>
    max (depthOption first) (max (depthOption second) (depthList args)) + 1

def depthOption : Option Ty → Nat
  | none => 0
  | some t => depth t

def depthList : List Ty → Nat
  | [] => 0
  | t :: ts => max (depth t) (depthList ts)

end

theorem depth_le_depthList {t : Ty} {ts : List Ty} (h : t ∈ ts) : t.depth ≤ depthList ts := by
  induction ts with
  | nil => cases h
  | cons u us ih =>
    rw [depthList]
    rcases List.mem_cons.1 h with rfl | h
    · exact Nat.le_max_left _ _
    · exact Nat.le_trans (ih h) (Nat.le_max_right _ _)

theorem depth_eq (t : Ty) :
    t.depth = max (depthOption t.first) (max (depthOption t.second) (depthList t.args)) + 1 := by
  cases t
  rw [depth]

theorem depth_lt_of_mem_nested {t u : Ty} (h : u ∈ t.nested) : u.depth < t.depth := by
  have depthOption_of_mem {o : Option Ty} (h : u ∈ o.toList) : depthOption o = u.depth := by
    rw [Option.mem_toList.1 h, depthOption]
  rw [depth_eq t]
  rcases List.mem_append.1 h with h | h
  · rcases List.mem_append.1 h with h | h
    · have := depthOption_of_mem h
      omega
    · have := depthOption_of_mem h
      omega
  · have := depth_le_depthList h
    omega

/-- Whether the type, or a type nested in it, is still to be inferred. -/
def isAuto (t : Ty) : Bool := t.anyNested fun u => u.base == .auto || u.dims.contains autoDim

def isAlias (t : Ty) : Bool := t.anyNested fun u => u.base == .aliased

def isSimple (t : Ty) (base : BaseType) : Bool := t.base == base && t.dims.isEmpty

def isVoid (t : Ty) : Bool := t.isSimple .void

def isPointer (t : Ty) : Bool := t.isSimple .pointer

def isHandle (t : Ty) : Bool := t.isSimple .handle

def isStruct (t : Ty) : Bool := t.isSimple .struct

def argIndex? (t : Ty) (name : String) : Option Nat := t.argNames.findIdx? (· == name)

/-- Which qualifiers count when two types are compared. -/
structure Comparison where
  refMatters : Bool
  constMatters : Bool
  temporaryMatters : Bool
  deriving DecidableEq, Repr

namespace Comparison

def full : Comparison := ⟨true, true, true⟩

end Comparison

def sameShallow (c : Comparison) (t u : Ty) : Bool :=
  t.base == u.base
    && (!c.refMatters || t.isRefFlag == u.isRefFlag)
    && (!c.constMatters || t.isConst == u.isConst)
    && (!c.temporaryMatters || t.isTemporary == u.isTemporary)
    && t.isImplicit == u.isImplicit && t.dropsConst == u.dropsConst && t.dropsRef == u.dropsRef
    && t.dropsDims == u.dropsDims && t.dims == u.dims
    && (match t.base with
      | .struct => t.struct? == u.struct?
      | .enum | .enum8 | .enum16 => t.enum? == u.enum?
      | .handle => t.annot? == u.annot?
      | .aliased => t.aliasName == u.aliasName
      | .variant => t.argNames == u.argNames
      | _ => true)

mutual

/-- Whether two types are the same. Nested types compare with every qualifier. -/
def same (c : Comparison) : Ty → Ty → Bool
  | t@{ first, second, args, .. }, u =>
    sameShallow c t u && sameOption first u.first && sameOption second u.second &&
      sameList args u.args

def sameOption : Option Ty → Option Ty → Bool
  | none, none => true
  | some t, some u => same .full t u
  | _, _ => false

def sameList : List Ty → List Ty → Bool
  | [], [] => true
  | t :: ts, u :: us => same .full t u && sameList ts us
  | _, _ => false

end

/-- Whether two types agree in everything that tells overloads apart. -/
def sameType (t u : Ty) : Bool := t.same .full u

theorem sameShallow_self (c : Comparison) (t : Ty) : sameShallow c t t = true := by
  unfold sameShallow
  cases t.base <;> simp

end Ty

end Frontend
