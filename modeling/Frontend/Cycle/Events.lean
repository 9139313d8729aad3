import Frontend.Cycle
import Frontend.Fault

/-!
# Cycles read off the events of a depth-first search

A depth-first search reports how it classifies each edge that it follows. A visitor of these events
keeps from which node every other node was reached, and stops the search at the first edge back to
the start. The cycle is then walked backwards from there. The search may follow the edges out of a
node in any order, so what it reports is a relation.
-/

namespace Frontend.Digraph

inductive Event where
  | discover (node : Nat)
  /-- The edge leads to a node that is discovered next. -/
  | treeEdge (source target : Nat)
  /-- The edge leads to a node that is discovered and not finished. -/
  | backEdge (source target : Nat)
  /-- The edge leads to a node that is finished. -/
  | crossForwardEdge (source target : Nat)
  /-- All edges out of the node have been reported. -/
  | finish (node : Nat)
  deriving DecidableEq, Repr

def Event.nodes : Event → List Nat
  | discover node | finish node => [node]
  | treeEdge source target | backEdge source target | crossForwardEdge source target =>
    [source, target]

/-- A node that is not finished, with the targets of its edges that are not reported yet. -/
structure Frame where
  node : Nat
  left : List Nat

/-- How far a search has come: the nodes on the way to the current one, which is first, and those
that are finished. -/
structure Progress where
  frames : List Frame
  finished : List Nat

def Progress.path (p : Progress) : List Nat := p.frames.map (·.node)

/-- One step of a search that follows the edges out of each node in a given order, with what it
reports. -/
inductive Step (order : Nat → List Nat) : Progress → List Event → Progress → Prop
  | descend {node t : Nat} {ts : List Nat} {fs : List Frame} {finished : List Nat}
    (unopened : t ∉ node :: fs.map (·.node)) (unfinished : t ∉ finished) :
    Step order ⟨⟨node, t :: ts⟩ :: fs, finished⟩ [.treeEdge node t, .discover t]
      ⟨⟨t, order t⟩ :: ⟨node, ts⟩ :: fs, finished⟩
  | back {node t : Nat} {ts : List Nat} {fs : List Frame} {finished : List Nat}
    (opened : t ∈ node :: fs.map (·.node)) :
    Step order ⟨⟨node, t :: ts⟩ :: fs, finished⟩ [.backEdge node t] ⟨⟨node, ts⟩ :: fs, finished⟩
  | crossForward {node t : Nat} {ts : List Nat} {fs : List Frame} {finished : List Nat}
    (unopened : t ∉ node :: fs.map (·.node)) (done : t ∈ finished) :
    Step order ⟨⟨node, t :: ts⟩ :: fs, finished⟩ [.crossForwardEdge node t]
      ⟨⟨node, ts⟩ :: fs, finished⟩
  | finish {node : Nat} {fs : List Frame} {finished : List Nat} :
    Step order ⟨⟨node, []⟩ :: fs, finished⟩ [.finish node] ⟨fs, node :: finished⟩

inductive Steps (order : Nat → List Nat) : Progress → List Event → Progress → Prop
  | refl (p : Progress) : Steps order p [] p
  | head {p q r : Progress} {events events' : List Event} (step : Step order p events q)
    (rest : Steps order q events' r) : Steps order p (events ++ events') r

def Progress.first (order : Nat → List Nat) (start : Nat) : Progress := ⟨[⟨start, order start⟩], []⟩

def Reports (order : Nat → List Nat) (start : Nat) (events : List Event) : Prop :=
  ∃ events' finished, events = .discover start :: events' ∧
    Steps order (.first order start) events' ⟨[], finished⟩

/-- Keeps from where each node was reached, until an edge leads back to the start. That edge is kept
as the one by which the start is reached. -/
def closeAt (start : Nat) : List Event → Array (Option Nat) → Option (Array (Option Nat))
  | [], _ => none
  | event :: events, reached =>
    match event with
    | .treeEdge source target => closeAt start events (reached.setIfInBounds target (some source))
    | .backEdge source target =>
      if target = start then some (reached.setIfInBounds start (some source))
      else closeAt start events reached
    | _ => closeAt start events reached

/-- Goes back to the start and lists the nodes it comes by, unless one was not reached at all. -/
def walkBack (reached : Array (Option Nat)) (start : Nat) :
    Nat → Nat → Except Fault (Option (List Nat))
  | 0, _ => .error .endless
  | steps + 1, node =>
    if node = start then .ok (some [])
    else match reached[node]?.join with
      | none => .ok none
      | some source => do return (← walkBack reached start steps source).map (node :: ·)

/-- A cycle through `start` as the events of a search close it, listed from `start`. -/
def cycleAlong (g : Digraph) (start : Nat) (events : List Event) :
    Except Fault (Option (List Nat)) :=
  match closeAt start events (.replicate g.size none) with
  | none => .ok none
  | some reached =>
    match reached[start]?.join with
    | none => .ok none
    | some last => do
      return (← walkBack reached start g.size last).map fun nodes => start :: nodes.reverse

end Frontend.Digraph
