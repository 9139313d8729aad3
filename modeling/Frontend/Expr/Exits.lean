import Frontend.Store.Basic

/-!
# How statements leave the flow

`Exits` collects the ways in which evaluating a statement may leave the statements around it.
`Store.exits` reads them off a tree: loops absorb `break` and `continue`, and `try` absorbs what its
body throws. `Store.alwaysLeaves` holds for statements that never fall through.
-/

namespace Frontend

structure Exits where
  returns : Bool := false
  breaks : Bool := false
  continues : Bool := false
  throws : Bool := false
  jumps : Bool := false
  deriving DecidableEq, Repr, Inhabited

namespace Exits

def none : Exits := {}

def union (a b : Exits) : Exits where
  returns := a.returns || b.returns
  breaks := a.breaks || b.breaks
  continues := a.continues || b.continues
  throws := a.throws || b.throws
  jumps := a.jumps || b.jumps

instance : Union Exits := ⟨union⟩

def stopsFlow (a : Exits) : Bool := a.returns || a.breaks || a.continues || a.throws

def outOfLoop (a : Exits) : Exits := { a with breaks := false, continues := false }

def outOfTry (a : Exits) : Exits := { a with throws := false }

def bits (a : Exits) : Nat :=
  a.returns.toNat + 2 * a.breaks.toNat + 4 * a.continues.toNat + 8 * a.throws.toNat +
    16 * a.jumps.toNat

@[simp] theorem none_union (a : Exits) : none ∪ a = a := by
  cases a; simp [Union.union, union, none]

@[simp] theorem stopsFlow_union (a b : Exits) :
    (a ∪ b).stopsFlow = (a.stopsFlow || b.stopsFlow) := by
  simp only [Union.union, union, stopsFlow]
  ac_rfl

end Exits

namespace Store

def isBuiltinPanic (s : Store) (function : Option FunctionId) : Bool :=
  match function.bind s.function? with
  | some f => f.isBuiltin && f.name == "panic"
  | none => false

mutual

/-- The ways in which a statement may leave the flow. -/
def exits (s : Store) : Expr → Exits
  | ⟨_, _, _, node⟩ => s.nodeExits node

def nodeExits (s : Store) : Node → Exits
  | .goto .. => { jumps := true }
  | .ret .. => { returns := true }
  | .breakLoop => { breaks := true }
  | .continueLoop => { continues := true }
  | .call _ _ function => if s.isBuiltinPanic function then { throws := true } else .none
  | .tryCatch body handler => (s.exits body).outOfTry ∪ s.exits handler
  | .ifThenElse cond ifTrue ifFalse _ =>
    s.exits cond ∪ s.exits ifTrue ∪ s.optionExits ifFalse
  | .whileLoop _ body => (s.exits body).outOfLoop
  | .forEach _ _ _ body => (s.optionExits body).outOfLoop
  | .block _ list finalList => s.listExits finalList ∪ s.listExits list
  | _ => .none

def optionExits (s : Store) : Option Expr → Exits
  | none => .none
  | some e => s.exits e

def listExits (s : Store) : List Expr → Exits
  | [] => .none
  | e :: es => s.exits e ∪ s.listExits es

end

mutual

/-- Whether the statement after this one is never reached from it. -/
def alwaysLeaves (s : Store) : Expr → Bool
  | ⟨_, _, _, node⟩ => s.nodeLeaves node

def nodeLeaves (s : Store) : Node → Bool
  | .ret .. | .breakLoop | .continueLoop => true
  | .call _ _ function => s.isBuiltinPanic function
  | .block info list _ => !info.isClosure && s.anyLeaves list
  | .ifThenElse _ ifTrue (some ifFalse) _ => s.alwaysLeaves ifTrue && s.alwaysLeaves ifFalse
  | _ => false

def anyLeaves (s : Store) : List Expr → Bool
  | [] => false
  | e :: es => s.alwaysLeaves e || s.anyLeaves es

end

end Store

end Frontend
