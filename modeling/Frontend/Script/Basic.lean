import Frontend.Expr.Basic
import Frontend.Total

/-!
# Scripted rewriters

A script drives a traversal by data: which visits it records, which gates it closes, and rules that
answer a visit with a rewrite. A rewriter runs a script over the whole program each time the
optimizer asks it to, and reports whether it changed anything.
-/

namespace Frontend

inductive RuleAction where
  | remove
  | expr (value : Expr)
  | field (value : FieldInit)
  | var (value : VarId)
  | function (value : FunctionId)
  | struct (value : StructId)
  | enumeration (value : EnumId)
  | type (value : Ty)
  deriving Inhabited

/-- Acts on the visits called `hook`, of the given subject if there is one, at most
`limit` times. -/
structure Rule where
  hook : String
  subject? : Option String := none
  limit? : Option Nat := none
  action : RuleAction
  deriving Inhabited

structure Script where
  /-- Sees the visits of whole nodes only, whatever their kind. -/
  isGeneric : Bool := false
  /-- Records these visits, all if the list is empty. -/
  only : List String := []
  /-- Never records these. -/
  skip : List String := []
  /-- Gates to close, by name or by name and subject. -/
  refuse : List String := []
  rules : List Rule := []
  deriving Inhabited

structure ScriptState where
  /-- Most recent record first. -/
  records : List String := []
  counts : List Nat := []
  deriving Inhabited, DecidableEq, Repr

namespace ScriptState

def log (s : ScriptState) : List String := s.records.reverse

def fired (s : ScriptState) : Nat := total id s.counts

end ScriptState

/-- A program-wide rewrite contributed by a module. -/
structure Rewriter where
  name : String
  /-- What application after application reports as changed; the last report repeats. -/
  changes : List Bool := []
  /-- The application, counted from one, that reports an error. -/
  failAt? : Option Nat := none
  script? : Option Script := none
  state : ScriptState := {}
  /-- Number of applications so far. -/
  applied : Nat := 0
  deriving Inhabited

/-- What an application, counted from zero, reports besides what the rules do. -/
def Rewriter.reports (r : Rewriter) (application : Nat) : Bool :=
  (r.changes[application]? <|> r.changes.getLast?).getD false

end Frontend
