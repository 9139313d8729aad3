import Frontend.Script.Visitor

/-!
# Hooks by kind

A visitor may have hooks for the nodes of one kind. Those that it does not have stand for its hooks
for all nodes. Literals have two kinds: hooks for literals of one sort run inside those for all
literals, and an answer of theirs other than to keep the node is the answer.
-/

namespace Frontend

structure NodeHooks (σ : Type) where
  enter : Expr → VisitM σ Expr := pure
  leave : Expr → VisitM σ (Rewrite Expr) := fun _ => pure .keep
  enterKind : String → Expr → VisitM σ Expr := fun _ => enter
  leaveKind : String → Expr → VisitM σ (Rewrite Expr) := fun _ => leave
  enterLiteral : String → Expr → VisitM σ Expr := fun _ => pure
  leaveLiteral : String → Expr → VisitM σ (Rewrite Expr) := fun _ _ => pure .keep

namespace NodeHooks

variable {σ : Type} (hooks : NodeHooks σ)

def enterNode (e : Expr) : VisitM σ Expr := do
  let entered ← hooks.enterKind e.node.visitName e
  match e.node with
  | .literal value => hooks.enterLiteral value.visitName entered
  | _ => return entered

def leaveNode (e : Expr) : VisitM σ (Rewrite Expr) := do
  match e.node with
  | .literal value =>
    match ← hooks.leaveLiteral value.visitName e with
    | .keep => hooks.leaveKind e.node.visitName e
    | r => return r
  | _ => hooks.leaveKind e.node.visitName e

variable (enter : Expr → VisitM σ Expr) (leave : Expr → VisitM σ (Rewrite Expr))

/-- A visitor with hooks for all nodes only gets one of them before and one after each node,
literals included. -/
theorem enterNode_generic : ({ enter, leave } : NodeHooks σ).enterNode = enter := by
  funext e
  unfold enterNode
  cases e.node <;> exact bind_pure _

theorem leaveNode_generic : ({ enter, leave } : NodeHooks σ).leaveNode = leave := by
  funext e
  unfold leaveNode
  cases e.node <;> rfl

end NodeHooks

end Frontend
