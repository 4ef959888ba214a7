import StepPlan.Graph
import StepPlan.Proofs.Reachability

/-! Graphs as they come about: every order of arrivals, failed ones included, of cluster marks
and of reachability queries. Dependencies are read as paths of edges, and the edges of such a
graph always end at nodes that have arrived.
-/

namespace StepPlan

-----------------------------------------------------------------------------------------
-- Edges and their ends
-----------------------------------------------------------------------------------------

namespace Adjacency

/-- Every edge ends below the given bound. -/
def Below (edges : Adjacency) (count : Nat) : Prop :=
  ∀ node, ∀ dependency ∈ edges.next node, dependency < count

/-- A node that has just been appended has no edges, and the edges of others stay. -/
@[simp] theorem linksAt_addNode (edges : Adjacency) (node : Nat)
    : edges.addNode.linksAt node = edges.linksAt node := by
  simp only [linksAt, addNode, List.getElem?_append]
  split
  · rfl
  · rename_i beyond
    rw [List.getElem?_eq_none (Nat.le_of_not_lt beyond)]
    rcases node - edges.links.length with _ | offset <;> simp

@[simp] theorem next_addNode (edges : Adjacency) (node : Nat)
    : edges.addNode.next node = edges.next node := by
  rw [next, dependencies, linksAt_addNode, next, dependencies]

/-- Listing an edge puts each of its ends in front at the other. -/
theorem linksAt_link (edges : Adjacency) (node dependency : Nat) (reading : Reading)
    (other : Nat)
    : (edges.link node dependency reading).linksAt other
      = { dependencies :=
            if node = other ∧ other < edges.nodeCount then
              (dependency, reading) :: edges.dependencies other
            else edges.dependencies other
          dependents :=
            if dependency = other ∧ other < edges.nodeCount then node :: edges.dependents other
            else edges.dependents other } := by
  simp only [dependencies, dependents, linksAt, link, nodeCount, List.getElem?_modify]
  by_cases known : other < edges.links.length
  · rw [List.getElem?_eq_getElem known]
    by_cases origin : node = other <;> by_cases target : dependency = other <;>
      simp [origin, target, known]
  · rw [List.getElem?_eq_none (Nat.le_of_not_lt known)]
    simp [known]

theorem next_link (edges : Adjacency) (node dependency : Nat) (reading : Reading)
    (other : Nat)
    : (edges.link node dependency reading).next other
      = if node = other ∧ other < edges.nodeCount then dependency :: edges.next other
        else edges.next other := by
  rw [next, dependencies, linksAt_link, next]
  split <;> rfl

/-- After an edge is added, a node depends on what it depended on before and, if it is the origin
of the edge, on the end of the edge.
-/
theorem mem_next_of_addEdge {edges : Adjacency} {node dependency other found : Nat}
    {reading : Reading}
    (member : found ∈ (edges.addEdge node dependency reading).next other)
    : found ∈ edges.next other ∨ (other = node ∧ found = dependency) := by
  unfold addEdge insertEdge? at member
  split at member
  · exact Or.inl member
  · rw [Option.getD_some, next_link] at member
    split at member
    · rename_i origin
      rcases List.mem_cons.mp member with same | earlier
      · exact Or.inr ⟨origin.1.symm, same⟩
      · exact Or.inl earlier
    · exact Or.inl member

theorem below_empty (count : Nat) : empty.Below count := by
  intro node dependency member
  simp [next, dependencies, linksAt, empty] at member

/-- Adding an edge to a node below the bound keeps all edges below it. -/
theorem Below.addEdge {edges : Adjacency} {count node dependency : Nat} {reading : Reading}
    (below : edges.Below count) (known : dependency < count)
    : (edges.addEdge node dependency reading).Below count := by
  intro other found member
  rcases mem_next_of_addEdge member with earlier | ⟨_, same⟩
  · exact below other found earlier
  · exact same ▸ known

end Adjacency

namespace Graph

/-- One node depends directly on another. -/
def Edge (graph : Graph) (node dependency : Nat) : Prop :=
  dependency ∈ graph.edges.next node

/-- A non-empty path of dependencies leads from one node to another. -/
def Path (graph : Graph) : Nat → Nat → Prop :=
  Relation.TransGen graph.Edge

/-- The node of one state leads to the node of another over a non-empty path. -/
def Needs (graph : Graph) (state other : StateId) : Prop :=
  ∃ entry otherEntry,
    graph.entry? state = some entry
    ∧ graph.entry? other = some otherEntry
    ∧ graph.Path entry.node otherEntry.node

/-- The graphs that come about from the empty one. Arrivals may use any program and memo, and
one that fails leaves behind what it has done so far.
-/
inductive Constructed : Graph → Prop
  | empty : Constructed .empty
  | add {graph : Graph} (earlier : Constructed graph) (program : Program) (memo : Memo)
    (id : StateId)
    : Constructed (graph.add program memo id).2.1
  | setCluster {graph marked : Graph} (earlier : Constructed graph) (state : StateId)
    (cluster : ClusterId) (success : graph.setCluster state cluster = .ok marked)
    : Constructed marked
  | remember {graph : Graph} (earlier : Constructed graph) (node : Nat)
    : Constructed (graph.remember node)

/-- Every edge of the graph ends at one of its nodes. -/
def EdgesInside (graph : Graph) : Prop :=
  graph.edges.Below graph.nodes.length

-----------------------------------------------------------------------------------------
-- Every step of the construction keeps edges inside
-----------------------------------------------------------------------------------------

/-- References that wake up end at the node that has arrived, by induction on the references. -/
theorem wake_below {edges : Adjacency} {count node : Nat} (below : edges.Below count)
    (known : node < count) (waiting : List (Nat × Reading))
    : (wake edges node waiting).Below count := by
  unfold wake
  induction waiting generalizing edges with
  | nil => exact below
  | cons reference rest ih => exact ih (below.addEdge known)

/-- The arrival of a key adds one node, and edges only to that node. -/
theorem EdgesInside.arrive {graph : Graph} (inside : graph.EdgesInside) (key : Key)
    (state : StateId)
    : (graph.arrive key state).EdgesInside := by
  have appended : graph.edges.addNode.Below (graph.nodes.length + 1) := by
    intro node dependency member
    rw [Adjacency.next_addNode] at member
    exact Nat.lt_succ_of_lt (inside node dependency member)
  unfold Graph.arrive EdgesInside
  split
  · simpa using wake_below appended (Nat.lt_succ_self _) _
  · simpa using appended

/-- Putting a state on its node adds no other edges than the arrival of its key does. -/
theorem EdgesInside.place {graph : Graph} (inside : graph.EdgesInside) (id : StateId)
    (state : State)
    : (graph.place id state).2.EdgesInside := by
  unfold Graph.place
  cases found : graph.nodeOfKey? state.key with
  | none => exact inside.arrive state.key id
  | some node => simpa [EdgesInside] using inside

/-- The edge for a referent ends at the node of the referent's key. -/
theorem EdgesInside.refer {graph : Graph} (inside : graph.EdgesInside) (node : Nat)
    (referent : Referent)
    : (Graph.refer node graph referent).EdgesInside := by
  unfold Graph.refer
  cases found : graph.nodeOfKey? referent.key with
  | none => exact inside
  | some dependency =>
      have known : dependency < graph.nodes.length := by
        unfold nodeOfKey? at found
        exact (List.findIdx?_eq_some_iff_findIdx_eq.mp found).1
      exact Adjacency.Below.addEdge inside known

/-- Connecting a state to its referents keeps edges inside, by induction on the referents. -/
theorem EdgesInside.connect {graph : Graph} (inside : graph.EdgesInside) (node : Nat)
    (state : State) (referents : List Referent)
    : (graph.connect node state referents).EdgesInside := by
  unfold Graph.connect
  induction referents.filter (fun referent => !isOwn state referent) generalizing graph with
  | nil => exact inside
  | cons referent rest ih => exact ih (inside.refer node referent)

/-- An arrival keeps edges inside, whether it succeeds or fails. -/
theorem EdgesInside.add {graph : Graph} (inside : graph.EdgesInside) (program : Program)
    (memo : Memo) (id : StateId)
    : (graph.add program memo id).2.1.EdgesInside := by
  unfold Graph.add
  cases program.registry.get id with
  | error _ => exact inside
  | ok state =>
      have placed := inside.place id state
      dsimp only
      split
      · exact placed
      · rcases program.referents memo state.role.stage state.formula with
          ⟨_ | referents, memo⟩
        · exact placed
        · exact placed.connect _ state referents

/-- The edges of a constructed graph end at its nodes, by induction on the construction. -/
theorem Constructed.edgesInside {graph : Graph} (constructed : graph.Constructed)
    : graph.EdgesInside := by
  induction constructed with
  | empty => exact Adjacency.below_empty _
  | add _ program memo id ih => exact ih.add program memo id
  | @setCluster graph marked _ state cluster success ih =>
      unfold Graph.setCluster at success
      cases found : graph.entry state with
      | error _ => simp [found] at success
      | ok entry =>
          simp only [found, Except.ok.injEq] at success
          subst marked
          simpa [EdgesInside] using ih
  | @remember graph _ node ih =>
      unfold Graph.remember
      split
      · exact ih
      · exact ih

/-- The search from a node finds exactly the nodes at the ends of paths from it. -/
theorem mem_search_iff {graph : Graph} (inside : graph.EdgesInside) {node other : Nat}
    : other ∈ graph.search node ↔ graph.Path node other := by
  unfold search Path
  rw [Reach.mem_closure_iff (inside node) inside, Relation.TransGen.head'_iff]
  rfl

/-- Adding states in a row and marking cluster members is a construction, by induction on the
states.
-/
theorem Constructed.addAll {graph result : Graph} (earlier : graph.Constructed)
    {program : Program} {memo later : Memo} {clusters : Option ClusterSet}
    {states : List StateId}
    (added : graph.addAll program memo clusters states = (.ok result, later))
    : result.Constructed := by
  induction states generalizing graph memo with
  | nil =>
      cases added
      exact earlier
  | cons state rest ih =>
      have arrived := earlier.add program memo state
      unfold Graph.addAll at added
      rcases outcome : graph.add program memo state with ⟨_ | node, placed, next⟩
      · simp [outcome] at added
      · simp only [outcome] at added arrived
        split at added
        · exact ih arrived added
        · split at added
          · cases added
          · rename_i marked success
            exact ih (arrived.setCluster _ _ success) added

/-- Whatever is built from a list of states is constructed. -/
theorem constructed_of_build {program : Program} {memo : Memo} {clusters : Option ClusterSet}
    {states : List StateId} {graph : Graph}
    (built : (build program memo clusters states).1 = .ok graph)
    : graph.Constructed := by
  unfold build at built
  rcases added : empty.addAll program memo clusters states with ⟨_ | result, later⟩
  · simp [added] at built
  · simp only [added, finish] at built
    split at built
    · cases built
      exact Constructed.empty.addAll added
    · cases built

end Graph

end StepPlan
