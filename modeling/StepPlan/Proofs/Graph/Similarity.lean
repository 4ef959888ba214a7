import StepPlan.Proofs.Graph.Building
import StepPlan.Proofs.Referent.Agreement

/-! Graphs that differ in the order of dependencies. Referents may be found in different orders, and
a graph lists the dependencies of a node in the order in which they were found. Nothing else about
the graph depends on that order, apart from which reading is kept for an edge and which key was
parked first.
-/

namespace StepPlan

-----------------------------------------------------------------------------------------
-- Edges
-----------------------------------------------------------------------------------------

namespace Adjacency

/-- Two sets of edges are the same up to readings and the order of dependencies. The dependents of a
node are listed in the same order.
-/
structure Similar (edges other : Adjacency) : Prop where
  nodeCount : edges.nodeCount = other.nodeCount
  dependents : ∀ node, edges.dependents node = other.dependents node
  next : ∀ node, (edges.next node).Perm (other.next node)

namespace Similar

variable {edges middle other : Adjacency}

theorem refl (edges : Adjacency) : edges.Similar edges :=
  ⟨rfl, fun _ => rfl, fun _ => .rfl⟩

theorem trans (first : edges.Similar middle) (second : middle.Similar other)
    : edges.Similar other :=
  ⟨first.nodeCount.trans second.nodeCount,
    fun node => (first.dependents node).trans (second.dependents node),
    fun node => (first.next node).trans (second.next node)⟩

theorem addNode (similar : edges.Similar other) : edges.addNode.Similar other.addNode where
  nodeCount := by simp [similar.nodeCount]
  dependents node := by simpa [Adjacency.dependents] using similar.dependents node
  next node := by simpa using similar.next node

/-- An edge may be added for different readings. -/
theorem addEdge (similar : edges.Similar other) (node dependency : Nat)
    (reading otherReading : Reading)
    : (edges.addEdge node dependency reading).Similar
        (other.addEdge node dependency otherReading) where
  nodeCount := by simp [similar.nodeCount]
  dependents target := by
    simp only [dependents_addEdge, (similar.next node).mem_iff, similar.nodeCount,
      similar.dependents target]
  next origin := by
    simp only [next_addEdge, (similar.next node).mem_iff, similar.nodeCount]
    split
    · exact (similar.next origin).cons dependency
    · exact similar.next origin

/-- Two edges of one node may be added in either order. -/
theorem addEdge_comm (edges : Adjacency) (node first second : Nat)
    (reading otherReading : Reading)
    : ((edges.addEdge node first reading).addEdge node second otherReading).Similar
        ((edges.addEdge node second otherReading).addEdge node first reading) := by
  by_cases same : first = second
  · subst same
    exact ((Similar.refl edges).addEdge node first _ _).addEdge node first _ _
  · have apart : ∀ {one other : Nat} (reading : Reading), one ≠ other
        → (one ∈ (edges.addEdge node other reading).next node ↔ one ∈ edges.next node) := by
      intro one other reading different
      rw [next_addEdge]
      split
      · simp [different]
      · exact Iff.rfl
    refine ⟨by simp, fun target => ?_, fun origin => ?_⟩
    · simp only [dependents_addEdge, nodeCount_addEdge, apart _ same, apart _ (Ne.symm same)]
      by_cases one : first = target
      · have other : second ≠ target := fun there => same (one.trans there.symm)
        simp [other]
      · simp [one]
    · rw [next_addEdge (edges.addEdge node first reading),
        next_addEdge (edges.addEdge node second otherReading)]
      simp only [apart _ same, apart _ (Ne.symm same), nodeCount_addEdge]
      rw [next_addEdge edges node first, next_addEdge edges node second]
      split
      · split
        · exact .swap first second _
        · exact .rfl
      · exact .rfl

end Similar

end Adjacency

namespace Graph

/-- References that wait for a node may wake up with different readings, by induction on them. -/
theorem similar_wake {edges other : Adjacency} (similar : edges.Similar other) (node : Nat)
    {waiting others : List (Nat × Reading)} (same : waiting.map Prod.fst = others.map Prod.fst)
    : (wake edges node waiting).Similar (wake other node others) := by
  induction waiting generalizing edges other others with
  | nil =>
      cases others with
      | nil => exact similar
      | cons => nomatch same
  | cons reference rest ih =>
      cases others with
      | nil => nomatch same
      | cons otherReference otherRest =>
          obtain ⟨first, later⟩ := List.cons.inj same
          have step := ih (similar.addEdge reference.1 node reference.2 otherReference.2) later
          rw [wake, wake, List.foldl_cons, List.foldl_cons, ← first]
          exact step

-----------------------------------------------------------------------------------------
-- Parked references
-----------------------------------------------------------------------------------------

theorem lookup_cons_eq (key : Key) (waiting : List (Nat × Reading))
    (rest : List (Key × List (Nat × Reading))) (other : Key)
    : List.lookup other ((key, waiting) :: rest)
      = if other = key then some waiting else rest.lookup other := by
  by_cases same : other = key
  · simp [same]
  · rw [List.lookup_cons, beq_false_of_ne same, if_neg same]

/-- Extending the references that wait for a key leaves those for other keys, by induction on what
is parked.
-/
theorem lookup_extend (parked : List (Key × List (Nat × Reading))) (key : Key)
    (reference : Nat × Reading) (other : Key)
    : (parked.map fun waiting =>
          if waiting.1 = key then (key, waiting.2 ++ [reference]) else waiting).lookup other
      = if other = key then (parked.lookup key).map (· ++ [reference])
        else parked.lookup other := by
  induction parked with
  | nil => simp
  | cons entry rest ih =>
      obtain ⟨own, waiting⟩ := entry
      rw [List.map_cons, lookup_cons_eq, lookup_cons_eq]
      by_cases here : own = key
      · rw [if_pos here, lookup_cons_eq, ih]
        by_cases same : other = key <;> simp [same, here]
      · rw [if_neg here, lookup_cons_eq, ih]
        by_cases same : other = key
        · simp [same, Ne.symm here]
        · simp [same]

/-- Parking adds a reference at the end of those that wait for its key. -/
theorem lookup_park (parked : List (Key × List (Nat × Reading))) (key : Key)
    (reference : Nat × Reading) (other : Key)
    : (park parked key reference).lookup other
      = if other = key then some ((parked.lookup key).getD [] ++ [reference])
        else parked.lookup other := by
  unfold park
  split
  · rename_i waiting found
    rw [lookup_extend, found, Option.map_some, Option.getD_some]
  · rename_i missing
    rw [List.lookup_append, missing, Option.getD_none, List.nil_append, lookup_cons_eq]
    by_cases same : other = key
    · simp [same, missing]
    · simp [same]

/-- Two references of a node may be parked in either order. If both wait for one key, it is the same
node that waits twice.
-/
theorem lookup_park_comm (parked : List (Key × List (Nat × Reading))) (node : Nat)
    (first second : Referent) (key : Key)
    : ((park (park parked first.key (node, first.reading)) second.key
          (node, second.reading)).lookup key).map (List.map Prod.fst)
      = ((park (park parked second.key (node, second.reading)) first.key
          (node, first.reading)).lookup key).map (List.map Prod.fst) := by
  simp only [lookup_park]
  by_cases same : first.key = second.key
  · simp only [same]
    split <;> simp
  · simp only [same, Ne.symm same, if_false]
    by_cases here : key = first.key
    · have there : key ≠ second.key := fun other => same (here.symm.trans other)
      simp only [here, same, if_true, if_false]
    · simp only [here, if_false]

/-- A key that is taken out leaves what waits for other keys, by induction on what is parked. -/
theorem lookup_filter_ne (parked : List (Key × List (Nat × Reading))) (key other : Key)
    : (parked.filter fun waiting => waiting.1 ≠ key).lookup other
      = if other = key then none else parked.lookup other := by
  induction parked with
  | nil => simp
  | cons entry rest ih =>
      obtain ⟨own, waiting⟩ := entry
      rw [lookup_cons_eq]
      by_cases here : own = key
      · rw [List.filter_cons_of_neg (by simp [here]), ih]
        by_cases same : other = key <;> simp [same, here]
      · rw [List.filter_cons_of_pos (by simp [here]), lookup_cons_eq, ih]
        by_cases same : other = key
        · simp [same, Ne.symm here]
        · simp [same]

-----------------------------------------------------------------------------------------
-- Graphs
-----------------------------------------------------------------------------------------

/-- The nodes that wait for a key, in the order in which they were parked, if any do. -/
def waiting? (graph : Graph) (key : Key) : Option (List Nat) :=
  (graph.parked.lookup key).map (List.map Prod.fst)

/-- Two graphs are the same up to readings, the order of dependencies, and the order of parked keys.
-/
structure Similar (graph other : Graph) : Prop where
  nodes : graph.nodes = other.nodes
  entries : graph.entries = other.entries
  roots : graph.roots = other.roots
  reached : graph.reached = other.reached
  edges : graph.edges.Similar other.edges
  waiting : ∀ key, graph.waiting? key = other.waiting? key

theorem waiting?_park (graph : Graph) (key : Key) (reference : Nat × Reading) (other : Key)
    : { graph with parked := park graph.parked key reference }.waiting? other
      = if other = key then some ((graph.waiting? key).getD [] ++ [reference.1])
        else graph.waiting? other := by
  unfold waiting?
  rw [lookup_park]
  split
  · cases graph.parked.lookup key <;> simp
  · rfl

namespace Similar

variable {graph middle other : Graph}

theorem refl (graph : Graph) : graph.Similar graph :=
  ⟨rfl, rfl, rfl, rfl, .refl _, fun _ => rfl⟩

theorem trans (first : graph.Similar middle) (second : middle.Similar other)
    : graph.Similar other where
  nodes := first.nodes.trans second.nodes
  entries := first.entries.trans second.entries
  roots := first.roots.trans second.roots
  reached := first.reached.trans second.reached
  edges := first.edges.trans second.edges
  waiting key := (first.waiting key).trans (second.waiting key)

theorem nodeOfKey? (similar : graph.Similar other) (key : Key)
    : graph.nodeOfKey? key = other.nodeOfKey? key := by
  rw [Graph.nodeOfKey?, Graph.nodeOfKey?, similar.nodes]

theorem entry? (similar : graph.Similar other) : graph.entry? = other.entry? := by
  funext state
  rw [Graph.entry?, Graph.entry?, similar.entries]

theorem nodeName (similar : graph.Similar other) (node : Nat)
    : graph.nodeName node = other.nodeName node := by
  rw [Graph.nodeName, Graph.nodeName, similar.nodes, similar.entry?]

theorem lookup_parked (similar : graph.Similar other) (key : Key)
    : (graph.parked.lookup key = none ∧ other.parked.lookup key = none)
      ∨ ∃ waiting others,
          graph.parked.lookup key = some waiting
          ∧ other.parked.lookup key = some others
          ∧ waiting.map Prod.fst = others.map Prod.fst := by
  have same := similar.waiting key
  unfold Graph.waiting? at same
  cases found : graph.parked.lookup key with
  | none =>
      rw [found] at same
      exact Or.inl ⟨rfl, Option.map_eq_none_iff.mp same.symm⟩
  | some waiting =>
      rw [found, Option.map_some] at same
      obtain ⟨others, otherFound, names⟩ := Option.map_eq_some_iff.mp same.symm
      exact Or.inr ⟨waiting, others, rfl, otherFound, names.symm⟩

/-- A key arrives at both graphs. The nodes that waited for it depend on it now. -/
theorem arrive (similar : graph.Similar other) (key : Key) (state : StateId)
    : (graph.arrive key state).Similar (other.arrive key state) := by
  unfold Graph.arrive
  rcases similar.lookup_parked key with ⟨missing, otherMissing⟩ | ⟨_, _, found, otherFound, names⟩
  · simp only [missing, otherMissing, similar.nodes, similar.roots]
    exact { similar with
      nodes := rfl
      roots := rfl
      edges := similar.edges.addNode
      waiting := similar.waiting }
  · simp only [found, otherFound, similar.nodes]
    exact { similar with
      nodes := rfl
      edges := similar_wake similar.edges.addNode _ names
      waiting := by
        intro later
        have same := similar.waiting later
        unfold Graph.waiting? at same ⊢
        dsimp only
        rw [lookup_filter_ne, lookup_filter_ne]
        split
        · rfl
        · exact same }

/-- A change of nodes that does not look at edges is made in both graphs. -/
theorem modify (similar : graph.Similar other) (node : Nat) (change : Node → Node)
    : { graph with nodes := graph.nodes.modify node change }.Similar
        { other with nodes := other.nodes.modify node change } :=
  { similar with
    nodes := congrArg (List.modify · node change) similar.nodes
    waiting := similar.waiting }

theorem enter (similar : graph.Similar other) (arrival : Entry)
    : { graph with entries := Graph.enter graph.entries arrival, reached := [] }.Similar
        { other with entries := Graph.enter other.entries arrival, reached := [] } :=
  { similar with
    entries := congrArg (Graph.enter · arrival) similar.entries
    reached := rfl
    waiting := similar.waiting }

theorem place (similar : graph.Similar other) (id : StateId) (state : State)
    : (graph.place id state).1 = (other.place id state).1
      ∧ (graph.place id state).2.Similar (other.place id state).2 := by
  unfold Graph.place
  rw [← similar.nodeOfKey?]
  cases found : graph.nodeOfKey? state.key with
  | some node => exact ⟨rfl, (similar.modify node _).enter _⟩
  | none =>
      dsimp only
      rw [← similar.nodes]
      exact ⟨rfl, (similar.arrive state.key id).enter _⟩

/-- One referent of a node is added or parked in both graphs. -/
theorem refer (similar : graph.Similar other) (node : Nat) (referent : Referent)
    : (Graph.refer node graph referent).Similar (Graph.refer node other referent) := by
  unfold Graph.refer
  rw [← similar.nodeOfKey?]
  split
  · rename_i dependency _
    exact { similar with
      roots := congrArg (List.erase · dependency) similar.roots
      edges := similar.edges.addEdge node dependency _ _
      waiting := similar.waiting }
  · exact { similar with
      waiting := by
        intro key
        rw [waiting?_park, waiting?_park, similar.waiting, similar.waiting] }

/-- Two referents of a node may be taken in either order. -/
theorem refer_comm (graph : Graph) (node : Nat) (first second : Referent)
    : (Graph.refer node (Graph.refer node graph first) second).Similar
        (Graph.refer node (Graph.refer node graph second) first) := by
  have kept : ∀ referent key,
      (Graph.refer node graph referent).nodeOfKey? key = graph.nodeOfKey? key := by
    intro referent key
    rw [Graph.nodeOfKey?, nodes_refer, Graph.nodeOfKey?]
  cases one : graph.nodeOfKey? first.key with
  | some dependency =>
      cases two : graph.nodeOfKey? second.key with
      | some otherDependency =>
          rw [refer_of_known ((kept first _).trans two), refer_of_known ((kept second _).trans one),
            refer_of_known one, refer_of_known two]
          exact { (Similar.refl graph) with
            roots := List.erase_comm _ _
            edges := .addEdge_comm _ _ _ _ _ _
            waiting := fun _ => rfl }
      | none =>
          rw [refer_of_new ((kept first _).trans two), refer_of_known ((kept second _).trans one),
            refer_of_known one, refer_of_new two]
          exact .refl _
  | none =>
      cases two : graph.nodeOfKey? second.key with
      | some otherDependency =>
          rw [refer_of_known ((kept first _).trans two), refer_of_new ((kept second _).trans one),
            refer_of_new one, refer_of_known two]
          exact .refl _
      | none =>
          rw [refer_of_new ((kept first _).trans two), refer_of_new ((kept second _).trans one),
            refer_of_new one, refer_of_new two]
          exact { (Similar.refl graph) with
            waiting := lookup_park_comm graph.parked node first second }

/-- The same referents may be taken in both graphs, by induction on them. -/
theorem foldl_refer (similar : graph.Similar other) (node : Nat) (referents : List Referent)
    : (referents.foldl (Graph.refer node) graph).Similar
        (referents.foldl (Graph.refer node) other) := by
  induction referents generalizing graph other with
  | nil => exact similar
  | cons referent rest ih => exact ih (similar.refer node referent)

/-- The referents of a node may be taken in any order, by induction on the permutation. -/
theorem foldl_refer_perm {referents others : List Referent} (permuted : referents.Perm others)
    (graph : Graph) (node : Nat)
    : (referents.foldl (Graph.refer node) graph).Similar
        (others.foldl (Graph.refer node) graph) := by
  induction permuted generalizing graph with
  | nil => exact .refl graph
  | cons referent _ ih => exact ih (Graph.refer node graph referent)
  | swap first second rest => exact (refer_comm graph node second first).foldl_refer node rest
  | trans _ _ one two => exact (one graph).trans (two graph)

theorem connect (similar : graph.Similar other) (node : Nat) (state : State)
    {referents others : List Referent} (permuted : referents.Perm others)
    : (graph.connect node state referents).Similar (other.connect node state others) :=
  (similar.foldl_refer node _).trans (foldl_refer_perm (permuted.filter _) other node)

end Similar

-----------------------------------------------------------------------------------------
-- Steps of a build
-----------------------------------------------------------------------------------------

/-- Two outcomes are the same error, or similar graphs. -/
inductive SameSteps : Except Error Graph → Except Error Graph → Prop
  | failed (error : Error) : SameSteps (.error error) (.error error)
  | done {graph other : Graph} (similar : graph.Similar other) : SameSteps (.ok graph) (.ok other)

theorem Similar.setCluster {graph other : Graph} (similar : graph.Similar other) (state : StateId)
    (cluster : ClusterId)
    : SameSteps (graph.setCluster state cluster) (other.setCluster state cluster) := by
  unfold Graph.setCluster Graph.entry
  rw [← similar.entry?]
  cases graph.entry? state with
  | none => exact .failed _
  | some found =>
      apply SameSteps.done
      exact { similar with
        nodes := congrArg (List.modify · found.node _) similar.nodes
        entries := congrArg (List.map _) similar.entries
        waiting := similar.waiting }

variable {program : Program} {memo otherMemo : Memo}

/-- Two arrivals of a state are the same failure, or they lead to similar graphs. -/
inductive SameArrival : Except Error Nat × Graph × Memo → Except Error Nat × Graph × Memo → Prop
  | failed (error : Error) (graph other : Graph) (memo otherMemo : Memo)
    : SameArrival (.error error, graph, memo) (.error error, other, otherMemo)
  | arrived (node : Nat) {graph other : Graph} (memo otherMemo : Memo)
    (similar : graph.Similar other)
    : SameArrival (.ok node, graph, memo) (.ok node, other, otherMemo)

/-- Whatever exact memo resolves its referents, a state is added in the same way. -/
theorem Similar.add {graph other : Graph} (similar : graph.Similar other)
    (exact : memo.Exact program) (otherExact : otherMemo.Exact program) (id : StateId)
    : SameArrival (graph.add program memo id) (other.add program otherMemo id) := by
  unfold Graph.add
  cases program.registry.get id with
  | error error => exact .failed error _ _ _ _
  | ok state =>
      obtain ⟨position, placed⟩ := similar.place id state
      dsimp only
      rw [← position]
      split
      · exact .arrived _ _ _ placed
      · have findings := Program.sameFindings_referents exact otherExact state.role.stage
          state.formula
        rcases outcome : program.referents memo state.role.stage state.formula with ⟨found, later⟩
        rcases otherOutcome : program.referents otherMemo state.role.stage state.formula with
          ⟨others, otherLater⟩
        rw [outcome, otherOutcome] at findings
        cases findings with
        | failed error => exact .failed error _ _ _ _
        | found permuted => exact .arrived _ _ _ (placed.connect _ state permuted)

/-- Whatever exact memos resolve their referents, states are added in the same way, by induction on
the states.
-/
theorem Similar.addAll {graph other : Graph} (similar : graph.Similar other)
    (exact : memo.Exact program) (otherExact : otherMemo.Exact program)
    (clusters : Option ClusterSet) (states : List StateId)
    : SameSteps (graph.addAll program memo clusters states).1
        (other.addAll program otherMemo clusters states).1 := by
  induction states generalizing graph other memo otherMemo with
  | nil => exact .done similar
  | cons id rest ih =>
      have kept := exact_add exact graph id
      have otherKept := exact_add otherExact other id
      have arrival := similar.add exact otherExact id
      unfold Graph.addAll
      generalize graph.add program memo id = added at kept arrival ⊢
      generalize other.add program otherMemo id = otherAdded at otherKept arrival ⊢
      cases arrival with
      | failed error => exact .failed error
      | @arrived node next otherNext later otherLater similar =>
          cases clusters.bind fun set => set.clusterOf? id with
          | none => exact ih similar kept otherKept
          | some cluster =>
              have marked := similar.setCluster id cluster
              dsimp only
              generalize next.setCluster id cluster = outcome at marked ⊢
              generalize otherNext.setCluster id cluster = otherOutcome at marked ⊢
              cases marked with
              | failed error => exact .failed error
              | done similar => exact ih similar kept otherKept

end Graph

end StepPlan
