import Frontend.Expr.Copy
import Frontend.Program.Basic

/-!
# Declaration lines

A line such as `a, b : int = 1` declares one variable for each of its names. Every variable gets the
type and a copy of the initializer of its own. Among variables declared together the first one of a
name counts and later ones are reported.
-/

namespace Frontend

structure Line where
  names : List (String × Span)
  /-- An omitted type is inferred. -/
  type : Option Ty := none
  init : Option Expr := none
  /-- The initializer is moved into the variable. -/
  moves : Bool := false
  span : Span := .builtin
  arguments : Arguments := .empty
  deriving Inhabited

namespace Store

def namedVariables (s : Store) (line : Line) :
    List (String × Span) → Except Fault (List Variable × Store)
  | [] => .ok ([], s)
  | (name, span) :: rest => do
    let (init, s) ← s.copyOption line.init
    let (rest, s) ← s.namedVariables line rest
    return ({ name, type := line.type.getD .auto, init, span, movesInit := line.moves
              arguments := line.arguments } :: rest, s)

def lineVariables (s : Store) : List Line → Except Fault (List Variable × Store)
  | [] => .ok ([], s)
  | line :: lines => do
    let (vars, s) ← s.namedVariables line line.names
    let (rest, s) ← s.lineVariables lines
    return (vars ++ rest, s)

end Store

/-- Declarations of which only the first of each name counts: those that count, and each of the
others with the one that took its name. -/
structure FirstOfName (α : Type) where
  kept : List α
  clashes : List (α × α)

def firstOfName {α : Type} (name : α → String) (earlier : List α) : List α → FirstOfName α
  | [] => ⟨earlier, []⟩
  | a :: as =>
    match earlier.find? fun b => name b == name a with
    | none => firstOfName name (earlier ++ [a]) as
    | some b =>
      let rest := firstOfName name earlier as
      ⟨rest.kept, (a, b) :: rest.clashes⟩

namespace Program

def takeLines (lines : List Line) : ProgramM (List Variable) := do
  let p ← get
  match p.store.lineVariables lines with
  | .ok (vars, store) =>
    set { p with store }
    return vars
  | .error fault => throw fault

def addVariables : List Variable → ProgramM (List VarId)
  | [] => return []
  | v :: vs => do
    let p ← get
    let (id, store) := p.store.addVariable v
    set { p with store }
    return id :: (← addVariables vs)

end Program

end Frontend
