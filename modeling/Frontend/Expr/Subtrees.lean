import Frontend.Expr.Basic

/-!
# Subtrees

All nodes of a tree in order, each before its children. Initializers of declared variables hang on
the variables and are not part of the tree.
-/

namespace Frontend

mutual

def Expr.subtrees : Expr → List Expr
  | ⟨span, type, flags, node⟩ => ⟨span, type, flags, node⟩ :: node.subtrees

def Node.subtrees : Node → List Expr
  | .label .. => []
  | .goto _ target => optionSubtrees target
  | .convert _ value => value.subtrees
  | .address .. => []
  | .nullCoalescing value default => value.subtrees ++ default.subtrees
  | .looksLikeCall _ _ args => listSubtrees args
  | .call _ args _ => listSubtrees args
  | .namedCall _ args => fieldSubtrees args
  | .makeGenerator _ args => listSubtrees args
  | .new _ args _ => listSubtrees args
  | .yield value _ => value.subtrees
  | .makeBlock block _ _ => block.subtrees
  | .isType value _ => value.subtrees
  | .typeInfo _ value _ => optionSubtrees value
  | .delete value _ => value.subtrees
  | .cast value _ _ _ => value.subtrees
  | .ascend value _ _ => value.subtrees
  | .index _ value index => value.subtrees ++ index.subtrees
  | .block _ list finalList => listSubtrees list ++ listSubtrees finalList
  | .swizzle _ value _ => value.subtrees
  | .field _ _ value _ _ _ => value.subtrees
  | .stringBuilder elements => listSubtrees elements
  | .var _ => []
  | .op1 _ value _ => value.subtrees
  | .op2 _ left right _ => left.subtrees ++ right.subtrees
  | .op3 _ value left right _ => value.subtrees ++ left.subtrees ++ right.subtrees
  | .assign _ left right _ => left.subtrees ++ right.subtrees
  | .sequence left right => left.subtrees ++ right.subtrees
  | .tryCatch body handler => body.subtrees ++ handler.subtrees
  | .ret value _ _ => optionSubtrees value
  | .breakLoop => []
  | .continueLoop => []
  | .ifThenElse cond ifTrue ifFalse _ =>
    cond.subtrees ++ ifTrue.subtrees ++ optionSubtrees ifFalse
  | .within value body => value.subtrees ++ body.subtrees
  | .whileLoop cond body => cond.subtrees ++ body.subtrees
  | .forEach _ _ sources body => listSubtrees sources ++ optionSubtrees body
  | .declare .. => []
  | .makeStruct _ rows _ => rowSubtrees rows
  | .makeVariant _ fields => fieldSubtrees fields
  | .makeArray _ values => listSubtrees values
  | .makeTuple _ values _ => listSubtrees values
  | .comprehension source body filter _ =>
    source.subtrees ++ body.subtrees ++ optionSubtrees filter
  | .literal _ => []

def optionSubtrees : Option Expr → List Expr
  | none => []
  | some e => e.subtrees

def listSubtrees : List Expr → List Expr
  | [] => []
  | e :: es => e.subtrees ++ listSubtrees es

def fieldSubtrees : List FieldInit → List Expr
  | [] => []
  | ⟨_, value, _, _⟩ :: fs => value.subtrees ++ fieldSubtrees fs

def rowSubtrees : List (List FieldInit) → List Expr
  | [] => []
  | fields :: rows => fieldSubtrees fields ++ rowSubtrees rows

end

/-- Variables that a node names itself. -/
def Node.vars : Node → List VarId
  | .var ref => ref.var?.toList
  | .block info _ _ => info.args
  | .forEach _ vars _ _ => vars
  | .declare vars _ => vars
  | _ => []

def Node.annots : Node → List AnnotId
  | .block info _ _ => info.annots.map (·.annot)
  | _ => []

namespace Expr

/-- Number of nodes. -/
def weight (e : Expr) : Nat := e.subtrees.length

def vars (e : Expr) : List VarId := e.subtrees.flatMap (·.node.vars)

def annots (e : Expr) : List AnnotId := e.subtrees.flatMap (·.node.annots)

theorem weight_pos (e : Expr) : 0 < e.weight := by
  cases e; simp [weight, Expr.subtrees]

end Expr

end Frontend
