import Frontend.Optimizer.Passes

/-!
# Unused declarations

A program uses its exported and `init` functions, the globals whose initializer does more than give
a literal, and every function and variable that these name, directly or through others. What is not
used is taken out of the module; native functions stay.
-/

namespace Frontend

inductive Symbol where
  | function (id : FunctionId)
  | var (id : VarId)
  deriving DecidableEq, Repr

/-- What a node uses by itself: the function it is linked to, or a variable from outside of the
function that it stands in. -/
def Node.uses : Node → List Symbol
  | .call _ _ function | .address _ function _ | .op1 _ _ function | .op2 _ _ _ function
  | .op3 _ _ _ _ function => function.toList.map .function
  | .var ref =>
    if ref.isLocal || ref.isArgument || ref.isBlock then [] else ref.var?.toList.map .var
  | _ => []

def usageCollector : Visitor (List Symbol) where
  enter e := do
    VisitM.modifyUser (e.node.uses ++ ·)
    return e

namespace Store

/-- Whether a symbol still exists; variables always do. -/
def hasSymbol (s : Store) : Symbol → Bool
  | .function id => s.functions.isAlive id
  | .var _ => true

/-- What a symbol uses directly: a function by its body and the defaults of its arguments, a
variable by its initializer. -/
def usesOf (s : Store) (symbol : Symbol) : Except Fault (List Symbol) := do
  let visit : VisitM (List Symbol) Unit :=
    match symbol with
    | .function id => discard (usageCollector.visitFunction id)
    | .var id =>
      match (s.var id).init with
      | none => pure ()
      | some init => do
        VisitM.modifyStore (·.modifyVariable id fun v => { v with init := none })
        discard (usageCollector.visit init)
  let ((), final) ← visit.run ⟨s, []⟩
  return final.user.filter s.hasSymbol

/-- Adds what the symbols of the frontier use, and what that uses, for `rounds` rounds at most. -/
def closeUses (s : Store) : Nat → List Symbol → List Symbol → Except Fault (List Symbol)
  | 0, seen, _ => .ok seen
  | rounds + 1, seen, frontier => do
    let uses ← frontier.mapM s.usesOf
    match uses.flatten.eraseDups.filter (!seen.contains ·) with
    | [] => return seen
    | fresh => s.closeUses rounds (seen ++ fresh) fresh

/-- Everything that the given symbols use, themselves included. Each round but the last adds a
symbol. -/
def reachableFrom (s : Store) (roots : List Symbol) : Except Fault (List Symbol) :=
  s.closeUses (s.functions.slots.size + s.vars.slots.size + 1) roots.eraseDups
    roots.eraseDups

def entryPoints (s : Store) (m : Module) : List FunctionId :=
  m.functions.values.filter fun id =>
    ((s.function? id).map fun f => f.exports || f.isInit).getD false

def computedGlobals (s : Store) (m : Module) : List VarId :=
  m.globalOrder.filter fun id => ((s.var id).init.map (!·.isLiteral)).getD false

def markUsed (s : Store) : Symbol → Store
  | .function id => s.modifyFunction id fun f => { f with used := true }
  | .var id => s.modifyVariable id fun v => { v with used := true }

/-- Takes the unused functions and globals out of a module, unless it has no entry points. -/
def dropUnused (s : Store) (m : ModuleId) : Except Fault (Bool × Store) := do
  let entries := s.entryPoints (s.module m)
  if entries.isEmpty then return (false, s)
  let used ← s.reachableFrom
    (entries.map Symbol.function ++ (s.computedGlobals (s.module m)).map Symbol.var)
  let s := used.foldl markUsed s
  let functions := (s.module m).functions.toList.filter fun (_, id) =>
    !((s.function? id).map (·.isBuiltin)).getD false && !used.contains (.function id)
  let globals := (s.module m).globalOrder.filter fun id => !used.contains (.var id)
  let s := functions.foldl (fun s f => s.unregisterFunction m f.1) s
  let s := globals.foldl (fun s id => s.unregisterVariable m id) s
  return (!functions.isEmpty || !globals.isEmpty, s)

end Store

namespace Program

def removeUnused : ProgramM Bool := do
  let p ← get
  match p.store.dropUnused p.this with
  | .error fault => throw fault
  | .ok (removed, store) =>
    set ({ p with store }.collect)
    let changed ← cleanStatements
    return removed || changed

end Program

end Frontend
