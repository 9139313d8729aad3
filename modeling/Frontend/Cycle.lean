/-!
# Cycles of a directed graph

`Digraph.cycleFrom g start` is a cycle through `start`, found by a depth-first search that tries the
edges of a node most recently added first. The search keeps the path from the start to the current
node, so a cycle is that path as soon as an edge leads back to the start.
-/

namespace Frontend

/-- A directed graph on the nodes `0 … size - 1`; edges are kept in the order they were added. -/
structure Digraph where
  size : Nat
  edges : List (Nat × Nat)

namespace Digraph

def successors (g : Digraph) (node : Nat) : List Nat :=
  (g.edges.reverse.filter (·.1 == node)).map (·.2)

structure Search where
  seen : List Nat
  cycle : Option (List Nat)

/-- Follows the edges to `targets` out of the last node of `path` (which is kept in reverse), one
after the other until the cycle is closed. `descend` searches below an unseen node. -/
def followAll (descend : List Nat → List Nat → Search) (start : Nat) (path : List Nat) :
    List Nat → List Nat → Search
  | [], seen => ⟨seen, none⟩
  | t :: ts, seen =>
    if seen.contains t then
      if t == start then ⟨seen, some path.reverse⟩ else followAll descend start path ts seen
    else
      let below := descend (t :: path) (t :: seen)
      match below.cycle with
      | some _ => below
      | none => followAll descend start path ts below.seen

/-- Searches below the last node of `path`; every step down marks a new node, so as many steps as
the graph has nodes are enough. -/
def searchBelow (g : Digraph) (start : Nat) : Nat → List Nat → List Nat → Search
  | 0, _, seen => ⟨seen, none⟩
  | steps + 1, path, seen =>
    match path with
    | [] => ⟨seen, none⟩
    | node :: _ => followAll (g.searchBelow start steps) start path (g.successors node) seen

/-- A cycle through `start` without repeated nodes, listed from `start` along the edges. -/
def cycleFrom (g : Digraph) (start : Nat) : Option (List Nat) :=
  (g.searchBelow start (g.size + 1) [start] [start]).cycle

def lastEdge? (g : Digraph) (source target : Nat) : Option Nat :=
  (g.edges.zipIdx.reverse.find? (fun e => e.1 == (source, target))).map (·.2)

end Digraph

end Frontend
