import Frontend.Expr.Subtrees
import Frontend.Fault
import Frontend.Store.Basic

/-!
# Visitors

A traversal calls a visitor before and after everything it comes by: nodes, the places that children
hang on, fields, declared variables, types and declarations. What is called before a visit of a node
or of a type hands back the one to go on with. What is called after a visit answers with a rewrite,
and whoever holds the visited value carries it out.
-/

namespace Frontend

inductive Rewrite (α : Type) where
  | keep
  | replace (value : α)
  | remove
  deriving Inhabited

namespace Rewrite

variable {α : Type}

def apply (r : Rewrite α) (old : α) : Option α :=
  match r with
  | keep => some old
  | replace value => some value
  | remove => none

@[simp] theorem apply_keep (old : α) : (keep : Rewrite α).apply old = some old := rfl

@[simp] theorem apply_replace (value old : α) : (replace value).apply old = some value := rfl

@[simp] theorem apply_remove (old : α) : (remove : Rewrite α).apply old = none := rfl

end Rewrite

inductive VariablePlace where
  | blockArg
  | loop
  | local
  | argument (function : String)
  | global
  deriving DecidableEq, Repr

/-- A place that holds an expression, with what there is to say about it. -/
inductive Slot where
  | defaultValue
  | looksLikeCallArg (call : String) (last : Bool)
  | callArg (call : String) (last : Bool)
  | newArg (type : Ty) (last : Bool)
  | index (safe : Bool)
  | statement
  | finalStatement
  | stringElement (last : Bool)
  | op2Right (op : String)
  | op3Left (op : String)
  | op3Right (op : String)
  | assignRight (mode : AssignMode)
  | sequenceRight
  | handler
  | ifBranch
  | elseBranch
  | withinBody
  | whileBody
  | loopSource (last : Bool)
  | loopBody
  | arrayValue (position : Nat) (last : Bool)
  | tupleValue (position : Nat) (last : Bool)
  | comprehensionBody
  | comprehensionFilter
  | init (place : VariablePlace) (var : VarId)
  | functionBody (function : String)
  | enumValue (enumeration name : String) (last : Bool)

inductive FieldSlot where
  | namedCallArg (call : String) (last : Bool)
  | structField (row : Nat) (last : Bool)
  | variantField (position : Nat) (last : Bool)

/-- What a traversal only tells. -/
inductive Notice where
  | isType (type : Ty)
  | finallyBegin
  | finallyEnd
  | loopStack (names : List String)
  | rowBegin (row : Nat) (last : Bool)
  | rowEnd (row : Nat) (last : Bool)
  | structBegin (name : String)
  | structFieldBegin (struct field : String) (last : Bool)
  | structFieldEnd (struct field : String) (last : Bool)
  | enumBegin (name : String)
  | enumValueBegin (enumeration name : String) (value : Option Expr) (last : Bool)
  | functionBegin (name : String)
  | programBegin (module : String)
  | programBodyBegin (module : String)
  | globalsBegin (module : String)
  | globalsEnd (module : String)
  | programEnd (module : String)

/-- What a visitor may keep a traversal from entering. -/
inductive Gate where
  | branches (cond : Expr)
  | fieldInits (struct : String)
  | function (name : String)

structure Visit (σ : Type) where
  store : Store
  user : σ

abbrev VisitM (σ : Type) := StateT (Visit σ) (Except Fault)

namespace VisitM

variable {σ α : Type}

def store : VisitM σ Store := return (← get).store

def user : VisitM σ σ := return (← get).user

def modifyStore (f : Store → Store) : VisitM σ Unit := modify fun v => { v with store := f v.store }

def modifyUser (f : σ → σ) : VisitM σ Unit := modify fun v => { v with user := f v.user }

def fail (fault : Fault) : VisitM σ α := throw fault

end VisitM

/-- The hooks of a traversal; by default nothing happens. -/
structure Visitor (σ : Type) where
  enter : Expr → VisitM σ Expr := pure
  leave : Expr → VisitM σ (Rewrite Expr) := fun _ => pure .keep
  enterSlot : Slot → Expr → VisitM σ Unit := fun _ _ => pure ()
  leaveSlot : Slot → Expr → VisitM σ (Rewrite Expr) := fun _ _ => pure .keep
  enterField : FieldSlot → FieldInit → VisitM σ Unit := fun _ _ => pure ()
  leaveField : FieldSlot → FieldInit → VisitM σ (Rewrite FieldInit) := fun _ _ => pure .keep
  enterVariable : VariablePlace → VarId → Bool → VisitM σ Unit := fun _ _ _ => pure ()
  leaveVariable : VariablePlace → VarId → Bool → VisitM σ (Rewrite VarId) :=
    fun _ _ _ => pure .keep
  enterType : Ty → VisitM σ Ty := pure
  leaveType : Ty → VisitM σ Ty := pure
  leaveStruct : StructId → VisitM σ (Rewrite StructId) := fun _ => pure .keep
  leaveEnum : EnumId → VisitM σ (Rewrite EnumId) := fun _ => pure .keep
  leaveFunction : FunctionId → VisitM σ (Rewrite FunctionId) := fun _ => pure .keep
  allows : Gate → VisitM σ Bool := fun _ => pure true
  notice : Notice → VisitM σ Unit := fun _ => pure ()
  /-- Number of nodes, and of levels of nested types, that its answers may bring in. -/
  weight : Nat := 0

end Frontend
