import StepPlan.Graph.Adjacency

/-! Edges in columns. The edges at all nodes share two columns: what an edge lists, and which edge
comes after it in the list of its node. The list of a node starts with the edge that was added last,
so an edge is added without moving another one. Nodes and edges are named by 32-bit numbers, and the
greatest of these numbers ends a list.
-/

namespace StepPlan

/-- A list for every node, in columns. -/
structure Chains (α : Type) where
  /-- The edge in front of the list of each node. -/
  first : List UInt32
  /-- What each edge lists. -/
  entries : List α
  /-- The edge that comes after each edge. -/
  next : List UInt32
  deriving DecidableEq

namespace Chains

variable {α : Type}

/-- The number that stands for no edge. -/
def stop : UInt32 :=
  0xffffffff

/-- No nodes. -/
def empty : Chains α :=
  ⟨[], [], []⟩

/-- Appends a node with an empty list. -/
def addNode (chains : Chains α) : Chains α :=
  { chains with first := chains.first ++ [stop] }

/-- Puts an entry in front of the list of a node. -/
def insert (chains : Chains α) (node : Nat) (entry : α) : Chains α :=
  { first := chains.first.set node (UInt32.ofNat chains.entries.length)
    entries := chains.entries ++ [entry]
    next := chains.next ++ [chains.first.getD node stop] }

/-- Follows a list from an edge to its end. There is no answer if the list does not end after the
given number of edges.
-/
def follow (chains : Chains α) : Nat → UInt32 → Option (List α)
  | 0, edge => if edge = stop then some [] else none
  | steps + 1, edge =>
      if edge = stop then some []
      else
        chains.entries[edge.toNat]?.bind fun entry =>
          chains.next[edge.toNat]?.bind fun after =>
            (chains.follow steps after).map (entry :: ·)

/-- The list of a node. It has no more entries than there are edges. -/
def list? (chains : Chains α) (node : Nat) : Option (List α) :=
  chains.first[node]?.bind (chains.follow chains.entries.length)

end Chains

/-- The edges at both of their ends, in columns, and the set of all edges. -/
structure EdgeColumns where
  /-- What each node depends on, and through which reading. -/
  forward : Chains (UInt32 × Reading)
  /-- The nodes that depend on each node. -/
  backward : Chains UInt32
  known : List (UInt32 × UInt32)
  deriving DecidableEq

namespace EdgeColumns

/-- No nodes and no edges. -/
def empty : EdgeColumns :=
  ⟨.empty, .empty, []⟩

/-- The number of edges. -/
def edgeCount (columns : EdgeColumns) : Nat :=
  columns.forward.entries.length

/-- Appends a node without edges. -/
def addNode (columns : EdgeColumns) : EdgeColumns :=
  { columns with forward := columns.forward.addNode, backward := columns.backward.addNode }

/-- Whether one node depends directly on another. -/
def hasEdge (columns : EdgeColumns) (node dependency : Nat) : Bool :=
  columns.known.contains (UInt32.ofNat node, UInt32.ofNat dependency)

/-- Lists an edge at both of its ends. -/
def link (columns : EdgeColumns) (node dependency : Nat) (reading : Reading) : EdgeColumns :=
  { forward := columns.forward.insert node (UInt32.ofNat dependency, reading)
    backward := columns.backward.insert dependency (UInt32.ofNat node)
    known := (UInt32.ofNat node, UInt32.ofNat dependency) :: columns.known }

/-- Adds an edge unless it is there already, and tells whether it is new. -/
def insertEdge (columns : EdgeColumns) (node dependency : Nat) (reading : Reading)
    : Bool × EdgeColumns :=
  if columns.hasEdge node dependency then (false, columns)
  else (true, columns.link node dependency reading)

/-- What a node depends on, the latest edge first. -/
def dependencies? (columns : EdgeColumns) (node : Nat) : Option (List (Nat × Reading)) :=
  (columns.forward.list? node).map fun entries =>
    entries.map fun entry => (entry.1.toNat, entry.2)

/-- The nodes that depend on a node, the latest edge first. -/
def dependents? (columns : EdgeColumns) (node : Nat) : Option (List Nat) :=
  (columns.backward.list? node).map fun entries => entries.map UInt32.toNat

end EdgeColumns

end StepPlan
