import Frontend.Cycle.Events
import Frontend.Program.Basic

/-!
# Structures that contain themselves

A structure whose fields contain it by value, directly or through other structures, has no finite
size. The check collects the structures that fields lead to and looks for a cycle through the first.
-/

namespace Frontend

/-- A field whose type is a structure: positions of the structure it is in and of its type. -/
structure FieldEdge where
  source : Nat
  target : Nat
  name : String
  span : Span
  deriving Inhabited

/-- The structures that fields lead to, numbered in the order they were found. -/
structure FieldGraph where
  structs : List StructId
  edges : List FieldEdge := []

namespace FieldGraph

def digraph (g : FieldGraph) : Digraph :=
  ⟨g.structs.length, g.edges.map fun e => (e.source, e.target)⟩

def edge? (g : FieldGraph) (source target : Nat) : Option FieldEdge :=
  (g.digraph.lastEdge? source target).bind (g.edges[·]?)

/-- Adds the edges of fields of the structure number `source`; structures that are new to the graph
go on top of the pending ones. -/
def addFields (s : Store) (source : Nat) :
    List Field → List Nat → FieldGraph → List Nat × FieldGraph
  | [], pending, g => (pending, g)
  | f :: fs, pending, g =>
    match if f.type.isStruct then f.type.struct?.filter s.structs.isAlive else none with
    | none => addFields s source fs pending g
    | some id =>
      match g.structs.findIdx? (· == id) with
      | some target =>
        addFields s source fs pending
          { g with edges := g.edges ++ [⟨source, target, f.name, f.span⟩] }
      | none =>
        let target := g.structs.length
        addFields s source fs (target :: pending)
          ⟨g.structs ++ [id], g.edges ++ [⟨source, target, f.name, f.span⟩]⟩

/-- Adds the edges of all pending structures. Every step settles one structure. -/
def close (s : Store) : Nat → List Nat → FieldGraph → FieldGraph
  | 0, _, g => g
  | _, [], g => g
  | steps + 1, source :: pending, g =>
    let fields := ((g.structs[source]?.bind s.struct?).map (·.fields)).getD []
    let (pending, g) := addFields s source fields pending g
    close s steps pending g

def ofStruct (s : Store) (id : StructId) : FieldGraph :=
  close s (s.structs.slots.size + 1) [0] ⟨[id], []⟩

def cycleEdges (g : FieldGraph) (cycle : List Nat) : List FieldEdge :=
  (cycle.zip (cycle.drop 1 ++ cycle.take 1)).filterMap fun (a, b) => g.edge? a b

end FieldGraph

namespace Program

/-- What the check says, given a cycle through the structure if there is one. A cycle is
reported. -/
def answerCycle (id : StructId) (g : FieldGraph) : Option (List Nat) → ProgramM Bool
  | none => return true
  | some cycle => do
    let p ← get
    let edges := g.cycleEdges cycle
    let nameOf (i : Nat) := ((g.structs[i]?.bind p.store.struct?).map (·.name)).getD ""
    let steps := edges.map fun e => (nameOf e.source, e.name)
    let span := (edges.head?.map (·.span)).getD
      (((p.store.struct? id).map (·.span)).getD .builtin)
    set (p.reportAt (.structureFieldCycle steps) span)
    return false

/-- Reports a structure that contains itself by value. Says whether there is no such cycle. -/
def checkFieldCycles (id : StructId) : ProgramM Bool := do
  let g := FieldGraph.ofStruct (← get).store id
  answerCycle id g (g.digraph.cycleFrom 0)

/-- The same check by a depth-first search that reports these events, in whatever order it follows
the edges. -/
def checkFieldCyclesAlong (events : List Digraph.Event) (id : StructId) : ProgramM Bool := do
  let g := FieldGraph.ofStruct (← get).store id
  answerCycle id g (← g.digraph.cycleAlong 0 events)

end Program

end Frontend
