import StepPlan.Graph.Adjacency
import StepPlan.Mining
import StepPlan.Reach

/-! The "cannot precede" graph over the states to compute. States arrive one at a time; states
with the same key share a node. A reference to a key that has not arrived is parked and becomes
an edge when the key does. The roots are the nodes that nothing depends on so far.
-/

namespace StepPlan

/-- A node: a key, the states that arrived under it, and the first cluster set for one of
them.
-/
structure Node where
  key : Key
  states : List StateId
  cluster : Option ClusterId
  deriving DecidableEq

/-- What the graph knows of a state. -/
structure Entry where
  state : StateId
  node : Nat
  target : Target
  role : Role
  name : String
  /-- The cluster of this state; other states on the same node may have none. -/
  cluster : Option ClusterId
  deriving DecidableEq

/-- A dependency graph under construction or complete. -/
structure Graph where
  nodes : List Node
  edges : Adjacency
  /-- The states in order of arrival. A state that arrives again keeps its place. -/
  entries : List Entry
  /-- The nodes that nothing depends on, in order of arrival. -/
  roots : List Nat
  /-- Keys that have not arrived, with the references that wait for them. -/
  parked : List (Key × List (Nat × Reading))
  /-- Reachable nodes that were asked for since the last arrival. -/
  reached : List (Nat × List Nat)
  deriving DecidableEq

namespace Graph

/-- The graph without nodes. -/
def empty : Graph :=
  ⟨[], .empty, [], [], [], []⟩

/-- The entry of a state, if it has arrived. -/
def entry? (graph : Graph) (state : StateId) : Option Entry :=
  graph.entries.find? fun entry => entry.state = state

/-- The entry of a state. -/
def entry (graph : Graph) (state : StateId) : Except Error Entry :=
  match graph.entry? state with
  | some found => .ok found
  | none => .error (.unknownState state)

/-- The cluster of a state. -/
def stateCluster? (graph : Graph) (state : StateId) : Option ClusterId :=
  (graph.entry? state).bind Entry.cluster

/-- The states in order of arrival. -/
def states (graph : Graph) : List StateId :=
  graph.entries.map Entry.state

/-- The node of a key, if the key has arrived. -/
def nodeOfKey? (graph : Graph) (key : Key) : Option Nat :=
  graph.nodes.findIdx? fun node => node.key = key

/-- A node is called by the name of its first state. -/
def nodeName (graph : Graph) (node : Nat) : String :=
  match (graph.nodes[node]?.bind fun found => found.states.head?).bind graph.entry? with
  | some entry => entry.name
  | none => "?"

/-- The entries after a state arrives: a known state keeps its place. -/
def enter (entries : List Entry) (arrival : Entry) : List Entry :=
  if entries.any fun entry => entry.state = arrival.state then
    entries.map fun entry => if entry.state = arrival.state then arrival else entry
  else entries ++ [arrival]

/-- Turns the references that waited for a node into edges. -/
def wake (edges : Adjacency) (node : Nat) (waiting : List (Nat × Reading)) : Adjacency :=
  waiting.foldl (fun edges reference => edges.addEdge reference.1 node reference.2) edges

/-- Adds a node for a key that arrives with its first state. It is a root unless references
waited for it.
-/
def arrive (graph : Graph) (key : Key) (state : StateId) : Graph :=
  let node := graph.nodes.length
  let nodes := graph.nodes ++ [⟨key, [state], none⟩]
  let edges := graph.edges.addNode
  match graph.parked.lookup key with
  | some waiting =>
      { graph with
        nodes := nodes
        edges := wake edges node waiting
        parked := graph.parked.filter fun parked => parked.1 ≠ key }
  | none => { graph with nodes := nodes, edges := edges, roots := graph.roots ++ [node] }

/-- Puts a state on the node of its key, which is added if the key is new. -/
def place (graph : Graph) (id : StateId) (state : State) : Nat × Graph :=
  let (node, placed) :=
    match graph.nodeOfKey? state.key with
    | some node =>
        (node, { graph with
          nodes := graph.nodes.modify node fun found =>
            { found with states := found.states ++ [id] } })
    | none => (graph.nodes.length, graph.arrive state.key id)
  let arrival : Entry := ⟨id, node, state.target, state.role, state.name, none⟩
  (node, { placed with entries := enter placed.entries arrival, reached := [] })

/-- Parks a reference until its key arrives. -/
def park (parked : List (Key × List (Nat × Reading))) (key : Key) (reference : Nat × Reading)
    : List (Key × List (Nat × Reading)) :=
  match parked.lookup key with
  | some _ =>
      parked.map fun waiting =>
        if waiting.1 = key then (key, waiting.2 ++ [reference]) else waiting
  | none => parked ++ [(key, [reference])]

/-- Adds the edge for one referent of a node, or parks it. -/
def refer (node : Nat) (graph : Graph) (referent : Referent) : Graph :=
  match graph.nodeOfKey? referent.key with
  | some dependency =>
      { graph with
        roots := graph.roots.erase dependency
        edges := graph.edges.addEdge node dependency referent.reading }
  | none => { graph with parked := park graph.parked referent.key (node, referent.reading) }

/-- Whether a referent of a state is left out because the state may read its own target. -/
def isOwn (state : State) (referent : Referent) : Bool :=
  state.role.allowsSelfReference && decide (referent.key.target = state.target)

/-- Adds or parks the edges for the referents of a state. -/
def connect (graph : Graph) (node : Nat) (state : State) (referents : List Referent) : Graph :=
  (referents.filter fun referent => !isOwn state referent).foldl (refer node) graph

/-- Adds a state. If its referents cannot be found, the state stays in the graph without the
edges for them.
-/
def add (graph : Graph) (program : Program) (memo : Memo) (id : StateId)
    : Except Error Nat × Graph × Memo :=
  match program.registry.get id with
  | .error error => (.error error, graph, memo)
  | .ok state =>
      let (node, placed) := graph.place id state
      if program.isBareInitializer state then (.ok node, placed, memo)
      else
        match program.referents memo state.role.stage state.formula with
        | (.error error, memo) => (.error error, placed, memo)
        | (.ok referents, memo) => (.ok node, placed.connect node state referents, memo)

/-- Marks a state as member of a cluster. Its node keeps the first cluster it is given. -/
def setCluster (graph : Graph) (state : StateId) (cluster : ClusterId) : Except Error Graph :=
  match graph.entry state with
  | .error error => .error error
  | .ok found =>
      .ok { graph with
        entries := graph.entries.map fun entry =>
          if entry.state = state then { entry with cluster := some cluster } else entry
        nodes := graph.nodes.modify found.node fun node =>
          { node with cluster := node.cluster <|> some cluster } }

/-- Fails if a reference still waits for its key, with the key that was parked first. -/
def finish (graph : Graph) : Except Error Graph :=
  match graph.parked with
  | [] => .ok graph
  | (key, waiting) :: _ =>
      .error (.danglingReference key (waiting.map fun reference => graph.nodeName reference.1))

/-- Adds states in order and marks cluster members, until something fails. -/
def addAll (graph : Graph) (program : Program) (memo : Memo) (clusters : Option ClusterSet)
    : List StateId → Except Error Graph × Memo
  | [] => (.ok graph, memo)
  | state :: rest =>
      match graph.add program memo state with
      | (.error error, _, memo) => (.error error, memo)
      | (.ok _, graph, memo) =>
          match clusters.bind fun set => set.clusterOf? state with
          | none => graph.addAll program memo clusters rest
          | some cluster =>
              match graph.setCluster state cluster with
              | .error error => (.error error, memo)
              | .ok graph => graph.addAll program memo clusters rest

/-- Builds the graph over a list of states and checks that every reference found its key. -/
def build (program : Program) (memo : Memo) (clusters : Option ClusterSet)
    (states : List StateId) : Except Error Graph × Memo :=
  match empty.addAll program memo clusters states with
  | (.error error, memo) => (.error error, memo)
  | (.ok graph, memo) => (graph.finish, memo)

/-- The nodes reachable from a node over dependencies, found by search. The node itself is
among them only if a cycle leads back to it.
-/
def search (graph : Graph) (node : Nat) : List Nat :=
  Reach.closure graph.nodes.length graph.edges.next (graph.edges.next node)

/-- The nodes reachable from a node, remembered or found. -/
def reachable (graph : Graph) (node : Nat) : List Nat :=
  match graph.reached.lookup node with
  | some known => known
  | none => graph.search node

/-- Remembers what is reachable from a node until the next state arrives. -/
def remember (graph : Graph) (node : Nat) : Graph :=
  match graph.reached.lookup node with
  | some _ => graph
  | none => { graph with reached := (node, graph.search node) :: graph.reached }

/-- Whether computing a state needs a target first. A derivative or constraint also depends on
its own target.
-/
def dependsOn (graph : Graph) (state : StateId) (target : Target) : Except Error Bool :=
  match graph.entry state with
  | .error error => .error error
  | .ok entry =>
      .ok ((entry.role.allowsSelfReference && decide (entry.target = target))
        || (graph.reachable entry.node).any fun node =>
          (graph.nodes[node]?.map fun found => found.key.target) == some target)

/-- Whether computing a state needs the node of another first. A derivative or constraint also
depends on the other states of its target.
-/
def dependsOnState (graph : Graph) (state other : StateId) : Except Error Bool :=
  match graph.entry state with
  | .error error => .error error
  | .ok entry =>
      match graph.entry other with
      | .error error => .error error
      | .ok otherEntry =>
          .ok ((decide (state ≠ other) && entry.role.allowsSelfReference
              && decide (entry.target = otherEntry.target))
            || (graph.reachable entry.node).contains otherEntry.node)

/-- The graph after the question whether a state needs a target. If that took a search, the search
is remembered.
-/
def afterDependsOn (graph : Graph) (state : StateId) (target : Target) : Graph :=
  match graph.entry? state with
  | some entry =>
      if entry.role.allowsSelfReference && decide (entry.target = target) then graph
      else graph.remember entry.node
  | none => graph

/-- The graph after the question whether a state needs the node of another. If that took a search,
the search is remembered.
-/
def afterDependsOnState (graph : Graph) (state other : StateId) : Graph :=
  match graph.entry? state, graph.entry? other with
  | some entry, some otherEntry =>
      if decide (state ≠ other) && entry.role.allowsSelfReference
          && decide (entry.target = otherEntry.target) then graph
      else graph.remember entry.node
  | _, _ => graph

end Graph

end StepPlan
