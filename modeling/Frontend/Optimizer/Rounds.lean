import Frontend.Optimizer.Reachability
import Frontend.Script.Visitor

/-!
# Rounds of the optimizer

A round runs the passes in their fixed order and then the rewriters of every visible module. Rounds
follow each other until one changes nothing, an error is reported, or the policies allow no more.
-/

namespace Frontend

/-- The size of a tree for the optimizer: literals count once and all other nodes twice, so that
every rewrite by a pass makes a tree smaller. -/
def Expr.bulk (e : Expr) : Nat := total (fun x => if x.isLiteral then 1 else 2) e.subtrees

def Store.bulk (s : Store) : Nat :=
  let option (e : Option Expr) := (e.map Expr.bulk).getD 0
  total (fun x => 1 + option x.2.body) s.functions.toList +
    total (fun x => 1 + option x.2.init) s.vars.toList +
    total (fun x => total (fun f => option f.init) x.2.fields) s.structs.toList +
    total (fun x => total (fun entry => option entry.2) x.2.entries) s.enumerations.toList

def Module.registered (m : Module) : Nat := m.functions.values.length + m.globalOrder.length

namespace Program

/-- The size of a program for the optimizer: its trees and declarations, and what its own module has
registered. -/
def bulk (p : Program) : Nat := p.store.bulk + p.thisModule.registered

def passes : List (ProgramM Bool) :=
  [foldReferences, removeUnused, foldConstants, foldConditions, foldBlocks, removeUnused]

inductive Progress where
  /-- No error so far. -/
  | going (changed : Bool)
  /-- The program has failed. -/
  | halted
  deriving DecidableEq, Repr

def runPasses : List (ProgramM Bool) → Bool → ProgramM Progress
  | [], changed => return .going changed
  | pass :: rest, changed => do
    let now ← pass
    if (← get).failed then return .halted
    runPasses rest (changed || now)

def rewriters (p : Program) : List (String × RewriterId) :=
  p.library.flatMap fun m =>
    (p.store.module m).rewriters.map fun r => ((p.store.module m).name, r)

/-- Applies a rewriter: its script, then the report of an error if it is time for that. -/
def applyRewriter (id : RewriterId) : ProgramM Bool := do
  let r := ((← get).store.rewriter? id).getD default
  let change (f : Rewriter → Rewriter) : ProgramM Unit :=
    modify fun p => { p with store := p.store.modifyRewriter id f }
  change fun r => { r with applied := r.applied + 1 }
  let fired ← match r.script? with
    | none => pure false
    | some script => do
      let state ← walk script.visitor r.state false
      change fun r => { r with state }
      pure (decide (r.state.fired < state.fired))
  if r.failAt? = some (r.applied + 1) then
    modify (·.reportMessage "macro gave up" "" "" .builtin .unspecified)
  return r.reports r.applied || fired

/-- Applies rewriters until the program has failed, which is blamed on the last one. -/
def applyRewriters : List (String × RewriterId) → Bool → ProgramM Progress
  | [], changed => return .going changed
  | (module, id) :: rest, changed => do
    let now ← applyRewriter id
    let p ← get
    if p.failed then
      let name := ((p.store.rewriter? id).map (·.name)).getD ""
      set (p.reportAt (.rewriterFailed module name) .builtin)
      return .halted
    applyRewriters rest (changed || now)

def round : ProgramM Progress := do
  match ← runPasses passes false with
  | .halted => return .halted
  | .going changed => applyRewriters (← get).rewriters changed

def runRounds : Nat → Nat → ProgramM Unit
  | 0, _ => throw .endless
  | fuel + 1, rounds => do
    let p ← get
    if p.policies.maxPasses?.any (· ≤ rounds) then
      set (p.reportAt (.didNotConverge rounds) .builtin)
    else
      match ← round with
      | .going true => runRounds fuel (rounds + 1)
      | _ => pure ()

/-- A bound on the rounds in which a rewriter changes a program of the given bulk. A rule without a
limit is taken to stop by itself after as many uses. -/
def roundsOf (bulk : Nat) (r : Rewriter) : Nat :=
  let scripted (script : Script) : Nat :=
    total (fun rule => (rule.limit?.getD bulk + 1) * (bulk + 2 * script.weight)) script.rules
  r.changes.length + (r.script?.map scripted).getD 0

def rewriterRounds (p : Program) (bulk : Nat) : Nat :=
  total (fun r => ((p.store.rewriter? r.2).map (roundsOf bulk)).getD 0) p.rewriters

/-- Enough rounds for a program without a limit: every change by a pass makes it smaller. -/
def roundsNeeded (p : Program) : Nat :=
  p.bulk + p.rewriterRounds p.bulk + 1

def optimize : ProgramM Unit := do
  let p ← get
  if p.options.getBool "optimize" p.policies.optimize then
    runRounds ((p.policies.maxPasses?.map (· + 1)).getD p.roundsNeeded) 0

end Program

end Frontend
