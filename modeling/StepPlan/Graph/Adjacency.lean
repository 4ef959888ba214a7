import StepPlan.Referent

/-! Edges between numbered nodes, listed at both ends with the latest edge in front. An edge
is kept once, with the reading it was first added for.
-/

namespace StepPlan

/-- The edges at one node. -/
structure Links where
  /-- The nodes it depends on, and through which reading. -/
  dependencies : List (Nat × Reading)
  /-- The nodes that depend on it. -/
  dependents : List Nat
  deriving DecidableEq

/-- The edges at every node. -/
structure Adjacency where
  links : List Links
  deriving DecidableEq

namespace Adjacency

/-- No nodes and no edges. -/
def empty : Adjacency :=
  ⟨[]⟩

/-- The number of nodes. -/
def nodeCount (edges : Adjacency) : Nat :=
  edges.links.length

/-- The edges at a node. -/
def linksAt (edges : Adjacency) (node : Nat) : Links :=
  edges.links[node]?.getD ⟨[], []⟩

/-- What a node depends on, the latest edge first. -/
def dependencies (edges : Adjacency) (node : Nat) : List (Nat × Reading) :=
  (edges.linksAt node).dependencies

/-- The nodes that depend on a node, the latest edge first. -/
def dependents (edges : Adjacency) (node : Nat) : List Nat :=
  (edges.linksAt node).dependents

/-- The nodes that a node depends on, the latest edge first. -/
def next (edges : Adjacency) (node : Nat) : List Nat :=
  (edges.dependencies node).map Prod.fst

/-- Whether one node depends directly on another. -/
def hasEdge (edges : Adjacency) (node dependency : Nat) : Bool :=
  (edges.next node).contains dependency

/-- The number of edges. -/
def edgeCount (edges : Adjacency) : Nat :=
  total (fun links => links.dependencies.length) edges.links

/-- Appends a node without edges. -/
def addNode (edges : Adjacency) : Adjacency :=
  ⟨edges.links ++ [⟨[], []⟩]⟩

/-- Lists an edge at both of its ends. -/
def link (edges : Adjacency) (node dependency : Nat) (reading : Reading) : Adjacency :=
  let forward := edges.links.modify node fun links =>
    { links with dependencies := (dependency, reading) :: links.dependencies }
  ⟨forward.modify dependency fun links =>
    { links with dependents := node :: links.dependents }⟩

/-- The edges with a new one, or nothing if it is there already. -/
def insertEdge? (edges : Adjacency) (node dependency : Nat) (reading : Reading)
    : Option Adjacency :=
  if edges.hasEdge node dependency then none else some (edges.link node dependency reading)

/-- Adds an edge unless it is there already. -/
def addEdge (edges : Adjacency) (node dependency : Nat) (reading : Reading) : Adjacency :=
  (edges.insertEdge? node dependency reading).getD edges

end Adjacency

end StepPlan
