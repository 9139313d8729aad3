import Frontend.Optimizer.Rules
import Frontend.Traversal.Whole

/-!
# Passes that rewrite trees

A pass applies one rule to every node of the program, children before parents, and says whether the
rule applied anywhere.
-/

namespace Frontend

/-- Rewrites every node that a rule applies to, and keeps whether there was one. -/
def rewriting (rule : Store → Expr → Option Expr) : Visitor Bool where
  leave e := do
    match rule (← VisitM.store) e with
    | none => return .keep
    | some e =>
      VisitM.modifyUser fun _ => true
      return .replace e

namespace Program

def rewrite (rule : Store → Expr → Option Expr) : ProgramM Bool :=
  walk (rewriting rule) false false

def foldReferences : ProgramM Bool := rewrite fun _ => Expr.cancelReference?

def foldConstants : ProgramM Bool := rewrite Store.foldConstant?

def foldConditions : ProgramM Bool := rewrite Store.chooseBranch?

def foldBlocks : ProgramM Bool := rewrite Store.tidyBlock?

def cleanStatements : ProgramM Bool := rewrite fun _ => Expr.cleanBlock?

end Program

end Frontend
