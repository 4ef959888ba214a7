import StepPlan.Proofs.Graph.Building

/-! What holds of a graph at every moment, while states arrive and the registry grows. The roots are
kept up to date in three places: a node is a root when it arrives unless something waited for it,
and it stops being one when an edge to it is added. Edges are listed at both ends, so the roots are
the nodes that have no dependents.
-/

namespace StepPlan

-----------------------------------------------------------------------------------------
-- Both ends of an edge
-----------------------------------------------------------------------------------------

namespace Adjacency

variable {edges : Adjacency}

/-- (edges.Mirrored) means that every edge is listed at both of its ends. -/
def Mirrored (edges : Adjacency) : Prop :=
  ∀ node dependency, node ∈ edges.dependents dependency ↔ dependency ∈ edges.next node

theorem mirrored_empty : empty.Mirrored := by
  intro node dependency
  simp [dependents, next, dependencies, linksAt, empty]

theorem Mirrored.addNode (mirrored : edges.Mirrored) : edges.addNode.Mirrored := by
  intro node dependency
  rw [next_addNode, dependents, linksAt_addNode]
  exact mirrored node dependency

/-- An edge between nodes that exist is listed at both of them, unless it is there already. -/
theorem Mirrored.addEdge (mirrored : edges.Mirrored) {node dependency : Nat}
    (originKnown : node < edges.nodeCount) (known : dependency < edges.nodeCount)
    (reading : Reading)
    : (edges.addEdge node dependency reading).Mirrored := by
  intro origin target
  have before := mirrored origin target
  rw [mem_next_addEdge originKnown, dependents_addEdge]
  by_cases here : dependency = target
  · subst here
    by_cases present : dependency ∈ edges.next node
    · have listed := (mirrored node dependency).mpr present
      simp only [present, not_true_eq_false, false_and, if_false, and_true, ← before]
      exact ⟨Or.inl, fun either => either.elim id fun same => same ▸ listed⟩
    · simp [present, known, before, or_comm]
  · simp [here, Ne.symm here, before]

/-- A node has no dependents exactly if no edge ends at it. -/
theorem Mirrored.dependents_eq_nil_iff (mirrored : edges.Mirrored) (node : Nat)
    : edges.dependents node = [] ↔ ∀ origin, node ∉ edges.next origin := by
  rw [List.eq_nil_iff_forall_not_mem]
  exact forall_congr' fun origin => not_congr (mirrored origin node)

end Adjacency

namespace Graph

variable {graph : Graph}

/-- References that wake up are listed at both ends, by induction on the references. -/
theorem mirrored_wake {edges : Adjacency} (mirrored : edges.Mirrored) {node : Nat}
    (known : node < edges.nodeCount) {waiting : List (Nat × Reading)}
    (originsKnown : ∀ reference ∈ waiting, reference.1 < edges.nodeCount)
    : (wake edges node waiting).Mirrored := by
  unfold wake
  induction waiting generalizing edges with
  | nil => exact mirrored
  | cons reference rest ih =>
      obtain ⟨first, later⟩ := List.forall_mem_cons.mp originsKnown
      apply ih (mirrored.addEdge first known reference.2)
      · simpa using known
      · simpa using later

-----------------------------------------------------------------------------------------
-- Roots
-----------------------------------------------------------------------------------------

/-- (graph.Rooted) means that edges are listed at both ends and that the roots are the nodes at
which no edge ends.
-/
structure Rooted (graph : Graph) : Prop where
  mirrored : graph.edges.Mirrored
  once : graph.roots.Nodup
  mem_iff
    : ∀ node,
        node ∈ graph.roots ↔ node < graph.nodes.length ∧ ∀ origin, ¬ graph.Edge origin node

theorem rooted_empty : empty.Rooted where
  mirrored := Adjacency.mirrored_empty
  once := List.nodup_nil
  mem_iff := by simp [empty]

/-- A key is waited for exactly if it is parked, since no list of references is empty. -/
theorem Consistent.exists_waits_iff (consistent : graph.Consistent) (key : Key)
    : (∃ node, graph.Waits node key) ↔ (graph.parked.lookup key).isSome = true := by
  cases found : graph.parked.lookup key with
  | none =>
      simp only [Option.isSome_none, Bool.false_eq_true, iff_false]
      exact fun ⟨node, waiting, member, _⟩ => not_mem_of_lookup found waiting member
  | some waiting =>
      have parked := mem_of_lookup found
      obtain ⟨reference, member⟩ := List.exists_mem_of_ne_nil _ (consistent.parkedUsed _ parked)
      simp only [Option.isSome_some, iff_true]
      exact ⟨reference.1, waiting, parked, List.mem_map_of_mem member⟩

theorem roots_arrive (graph : Graph) (key : Key) (state : StateId)
    : (graph.arrive key state).roots
      = if (graph.parked.lookup key).isSome then graph.roots
        else graph.roots ++ [graph.nodes.length] := by
  unfold arrive
  cases graph.parked.lookup key <;> rfl

/-- A key that arrives gets a root exactly if nothing waited for it. -/
theorem Rooted.arrive (rooted : graph.Rooted) (consistent : graph.Consistent) (key : Key)
    (state : StateId)
    : (graph.arrive key state).Rooted := by
  have below : ∀ node ∈ graph.roots, node < graph.nodes.length :=
    fun node member => ((rooted.mem_iff node).mp member).1
  have fresh : graph.nodes.length ∉ graph.roots := fun member => Nat.lt_irrefl _ (below _ member)
  have untouched : ∀ origin, ¬ graph.Edge origin graph.nodes.length :=
    fun origin edge => Nat.lt_irrefl _ (consistent.inside origin _ edge)
  have awaited := consistent.exists_waits_iff key
  refine ⟨?_, ?_, ?_⟩
  · obtain ⟨waiting, roots, found, result⟩ := graph.arrive_eq key state
    have known : graph.nodes.length < graph.edges.addNode.nodeCount := by
      rw [Adjacency.nodeCount_addNode, consistent.counted]
      exact Nat.lt_succ_self _
    rw [result]
    exact mirrored_wake rooted.mirrored.addNode known (consistent.waiting_known found)
  · rw [roots_arrive]
    split
    · exact rooted.once
    · rw [← List.concat_eq_append]
      exact rooted.once.concat fresh
  · intro node
    have edges := fun origin => edge_arrive_iff consistent key state origin node
    have length : (graph.arrive key state).nodes.length = graph.nodes.length + 1 := by
      obtain ⟨_, _, _, result⟩ := graph.arrive_eq key state
      simp [result]
    rw [roots_arrive, length]
    by_cases waited : (graph.parked.lookup key).isSome = true
    · -- Something waited, so an edge ends at the new node, and the old roots stay.
      obtain ⟨first, waits⟩ := awaited.mpr waited
      rw [if_pos waited, rooted.mem_iff]
      constructor
      · intro ⟨known, free⟩
        refine ⟨by omega, fun origin edge => ?_⟩
        rcases (edges origin).mp edge with old | ⟨_, new⟩
        · exact free origin old
        · omega
      · intro ⟨known, free⟩
        have old : node ≠ graph.nodes.length :=
          fun new => free first ((edges first).mpr (Or.inr ⟨waits, new⟩))
        exact ⟨by omega, fun origin edge => free origin ((edges origin).mpr (Or.inl edge))⟩
    · -- Nothing waited, so the edges are the same, and the new node is a root.
      have same : ∀ origin, (graph.arrive key state).Edge origin node ↔ graph.Edge origin node := by
        intro origin
        rw [edges]
        exact or_iff_left fun ⟨waits, _⟩ => waited (awaited.mp ⟨origin, waits⟩)
      simp only [if_neg waited, List.mem_append, List.mem_singleton, rooted.mem_iff, same]
      constructor
      · rintro (⟨known, free⟩ | new)
        · exact ⟨by omega, free⟩
        · exact ⟨by omega, new ▸ untouched⟩
      · intro ⟨known, free⟩
        by_cases new : node = graph.nodes.length
        · exact Or.inr new
        · exact Or.inl ⟨by omega, free⟩

/-- What has the same nodes, edges and roots is rooted as well. -/
theorem Rooted.of_eq {other : Graph} (rooted : graph.Rooted) (edges : other.edges = graph.edges)
    (count : other.nodes.length = graph.nodes.length) (roots : other.roots = graph.roots)
    : other.Rooted := by
  refine ⟨edges ▸ rooted.mirrored, roots ▸ rooted.once, fun node => ?_⟩
  rw [roots, count, rooted.mem_iff]
  simp only [Edge, edges]

/-- A state that is put on a node adds no root unless its key is new. -/
theorem Rooted.place (rooted : graph.Rooted) (consistent : graph.Consistent) (id : StateId)
    (state : State)
    : (graph.place id state).2.Rooted := by
  unfold Graph.place
  cases graph.nodeOfKey? state.key with
  | some node => exact rooted.of_eq rfl (List.length_modify ..) rfl
  | none => exact (rooted.arrive consistent state.key id).of_eq rfl rfl rfl

/-- A node to which an edge is added is no root any more, its own edge to itself included. -/
theorem Rooted.refer (rooted : graph.Rooted) (consistent : graph.Consistent) {node : Nat}
    (known : node < graph.nodes.length) (referent : Referent)
    : (Graph.refer node graph referent).Rooted := by
  cases found : graph.nodeOfKey? referent.key with
  | none =>
      rw [refer_of_new found]
      exact rooted.of_eq rfl rfl rfl
  | some dependency =>
      have originKnown : node < graph.edges.nodeCount := consistent.counted ▸ known
      have targetKnown : dependency < graph.edges.nodeCount := by
        rw [consistent.counted]
        simpa [keys] using (List.getElem?_eq_some_iff.mp (getElem?_of_nodeOfKey? found)).1
      rw [refer_of_known found]
      refine ⟨rooted.mirrored.addEdge originKnown targetKnown _, rooted.once.erase _, ?_⟩
      intro other
      dsimp only [Edge]
      simp only [Adjacency.mem_next_addEdge originKnown, rooted.once.mem_erase_iff,
        rooted.mem_iff, not_or, forall_and, Edge]
      constructor
      · intro kept
        obtain ⟨different, below, free⟩ := kept
        exact ⟨below, free, fun _ new => different new.2⟩
      · intro untouched
        obtain ⟨below, free, new⟩ := untouched
        exact ⟨fun same => new node ⟨rfl, same⟩, below, free⟩

/-- Connecting a state keeps the graph rooted, by induction on the referents. -/
theorem Rooted.connect (rooted : graph.Rooted) (consistent : graph.Consistent) {node : Nat}
    (known : node < graph.nodes.length) (state : State) (referents : List Referent)
    : (graph.connect node state referents).Rooted := by
  unfold Graph.connect
  induction referents.filter (fun referent => !isOwn state referent) generalizing graph with
  | nil => exact rooted
  | cons referent rest ih =>
      apply ih (rooted.refer consistent known referent) (consistent.refer known referent)
      rwa [nodes_refer]

-----------------------------------------------------------------------------------------
-- States and their nodes
-----------------------------------------------------------------------------------------

/-- (Houses registry graph) means that every state of the graph is registered and stands on the node
of its key.
-/
def Houses (registry : Registry) (graph : Graph) : Prop :=
  ∀ entry ∈ graph.entries,
    ∃ state,
      registry.get? entry.state = some state
      ∧ graph.keys[entry.node]? = some state.key
      ∧ ∀ node ∈ graph.nodes, node.key = state.key → entry.state ∈ node.states

variable {registry : Registry}

theorem of_mem_enter {entries : List Entry} {arrival entry : Entry}
    (member : entry ∈ enter entries arrival)
    : entry ∈ entries ∨ entry = arrival := by
  unfold enter at member
  split at member
  · obtain ⟨old, oldMember, rfl⟩ := List.mem_map.mp member
    split
    · exact Or.inr rfl
    · exact Or.inl oldMember
  · simpa using member

/-- A state that arrives is listed on its node, and no other state leaves its own. -/
theorem Houses.place (houses : Houses registry graph) {id : StateId} {state : State}
    (registered : registry.get? id = some state) {node : Nat} {placed : Graph}
    (arrival : Placed id state graph node placed)
    : Houses registry placed := by
  intro entry member
  rw [arrival.entries] at member
  rcases of_mem_enter member with old | rfl
  · obtain ⟨known, knownAt, here, listed⟩ := houses entry old
    refine ⟨known, knownAt, arrival.stays _ _ here, fun found foundMember key => ?_⟩
    rcases arrival.joined found foundMember with
      ⟨same, absent, _⟩ | ⟨before, beforeMember, same, states⟩
    · -- A new node has a new key, but this one has arrived.
      exact absurd (List.mem_of_getElem? here) (key.symm.trans same ▸ absent)
    · have inside := listed before beforeMember (same.symm.trans key)
      rw [states]
      split
      · exact List.mem_append_left _ inside
      · exact inside
  · refine ⟨state, registered, arrival.here, fun found foundMember key => ?_⟩
    rcases arrival.joined found foundMember with ⟨_, _, states⟩ | ⟨before, _, same, states⟩
    · simp [states]
    · simp [states, same.symm.trans key]

theorem Houses.grow (houses : Houses registry graph) {later : Registry}
    (growth : registry.states <+: later.states)
    : Houses later graph := by
  intro entry member
  obtain ⟨state, registered, rest⟩ := houses entry member
  obtain ⟨bound, same⟩ := List.getElem?_eq_some_iff.mp registered
  have kept : later.get? entry.state = some state :=
    (List.prefix_iff_getElem?.mp growth _ bound).trans (congrArg some same)
  exact ⟨state, kept, rest⟩

-----------------------------------------------------------------------------------------
-- The whole graph
-----------------------------------------------------------------------------------------

/-- The graphs that come about from the empty one, with the registry they were built over. Arrivals
may use any model and memo, and one that fails leaves behind what it has done so far. Between
arrivals the registry may take in more states.
-/
inductive Grown : Registry → Graph → Prop
  | empty (registry : Registry) : Grown registry .empty
  | grow {registry later : Registry} {graph : Graph} (earlier : Grown registry graph)
    (growth : registry.states <+: later.states)
    : Grown later graph
  | add {program : Program} {graph : Graph} (earlier : Grown program.registry graph) (memo : Memo)
    (id : StateId)
    : Grown program.registry (graph.add program memo id).2.1

/-- (Orderly registry graph) collects what every arrival keeps. -/
structure Orderly (registry : Registry) (graph : Graph) : Prop where
  consistent : graph.Consistent
  rooted : graph.Rooted
  houses : Houses registry graph

/-- A state keeps the graph in order when it is put on its node. If its referents are found, so do
the edges for them.
-/
theorem Orderly.add {program : Program} (orderly : Orderly program.registry graph) (memo : Memo)
    (id : StateId)
    : Orderly program.registry (graph.add program memo id).2.1 := by
  unfold Graph.add Registry.get
  cases registered : program.registry.get? id with
  | none => exact orderly
  | some state =>
      have arrival := placed_place orderly.consistent id state
      have rooted := orderly.rooted.place orderly.consistent id state
      have placed : Orderly program.registry (graph.place id state).2 :=
        ⟨arrival.consistent, rooted, orderly.houses.place registered arrival⟩
      dsimp only
      split
      · exact placed
      · rcases program.referents memo state.role.stage state.formula with ⟨_ | referents, _⟩
        · exact placed
        · obtain ⟨bound, _⟩ := List.getElem?_eq_some_iff.mp arrival.here
          have known : (graph.place id state).1 < (graph.place id state).2.nodes.length := by
            simpa [keys] using bound
          obtain ⟨consistent, nodes, entries, _⟩ :=
            connect_spec placed.consistent known state referents
          refine ⟨consistent, placed.rooted.connect placed.consistent known state referents, ?_⟩
          intro entry member
          rw [keys, nodes]
          exact placed.houses entry (entries ▸ member)

/-- Every graph is in order, by induction on how it came about. -/
theorem Grown.orderly (grown : Grown registry graph) : Orderly registry graph := by
  induction grown with
  | empty registry => exact ⟨consistent_empty, rooted_empty, nofun⟩
  | grow _ growth ih => exact ⟨ih.consistent, ih.rooted, ih.houses.grow growth⟩
  | add _ memo id ih => exact ih.add memo id

/-- Whatever has arrived or failed to, the roots are the nodes without dependents, keys have one
node each, references wait for absent keys only, and each state is listed on the node of its key.
-/
theorem invariant_of_grown (grown : Grown registry graph)
    : (graph.edges.Mirrored
        ∧ graph.roots.Nodup
        ∧ ∀ node,
            node ∈ graph.roots ↔ node < graph.nodes.length ∧ graph.edges.dependents node = [])
      ∧ (graph.nodes.map Node.key).Nodup
      ∧ (∀ key waiting,
          (key, waiting) ∈ graph.parked
          → (∀ node ∈ graph.nodes, node.key ≠ key)
            ∧ waiting ≠ []
            ∧ ∀ reference ∈ waiting, reference.1 < graph.nodes.length)
      ∧ ∀ id entry,
          graph.entry? id = some entry
          → ∃ state node,
              registry.get? id = some state
              ∧ graph.nodes[entry.node]? = some node
              ∧ node.key = state.key
              ∧ id ∈ node.states := by
  obtain ⟨consistent, rooted, houses⟩ := grown.orderly
  refine ⟨⟨rooted.mirrored, rooted.once, fun node => ?_⟩, consistent.distinct, ?_, ?_⟩
  · rw [rooted.mem_iff, rooted.mirrored.dependents_eq_nil_iff]
    rfl
  · intro key waiting parked
    refine ⟨fun node member same => ?_, consistent.parkedUsed _ parked,
      consistent.parkedInside _ parked⟩
    exact consistent.parkedAbsent _ parked (same ▸ List.mem_map_of_mem member)
  · intro id entry found
    obtain rfl : entry.state = id := by simpa using List.find?_some found
    obtain ⟨state, registered, here, listed⟩ := houses entry (List.mem_of_find?_eq_some found)
    rw [keys, List.getElem?_map] at here
    obtain ⟨node, nodeAt, key⟩ := Option.map_eq_some_iff.mp here
    exact ⟨state, node, registered, nodeAt, key, listed node (List.mem_of_getElem? nodeAt) key⟩

/-- A state that reads a draw and its own value, and one that reads a state that is not there. -/
def earlyProgram : Program where
  model := ⟨[]⟩
  registry :=
    [⟨.var (.ofIndex 0), .direct, [.draw (.ofIndex 0), .slot (.ofIndex 0), .operator .add], "sum"⟩,
      ⟨.var (.ofIndex 1), .direct, [.slot (.ofIndex 7)], "lost"⟩].foldl
        (fun registry state => (registry.add state).2) .empty

/-- The draw is registered last. -/
def completedProgram : Program where
  model := ⟨[]⟩
  registry := (earlyProgram.registry.add ⟨.draw (.ofIndex 0), .rand, [.number ⟨0⟩], "draw"⟩).2

/-- The first two states have arrived, the second without its edges. -/
def earlyGraph : Graph :=
  ((empty.add earlyProgram .empty (.ofIndex 0)).2.1.add earlyProgram .empty (.ofIndex 1)).2.1

/-- The draw has arrived as well. -/
def completedGraph : Graph :=
  (earlyGraph.add completedProgram .empty (.ofIndex 2)).2.1

/-- The sum depends on itself, and it waited for the draw. So the only root is the state whose
arrival failed.
-/
theorem invariant_of_grown_completed
    : (empty.add earlyProgram .empty (.ofIndex 1)).1 = .error (.unknownState (.ofIndex 7))
      ∧ completedGraph.roots = [1]
      ∧ completedGraph.edges.dependents 1 = []
      ∧ completedGraph.edges.dependents 0 ≠ []
      ∧ completedGraph.edges.dependents 2 ≠ [] := by
  have early : Grown earlyProgram.registry earlyGraph :=
    ((Grown.empty earlyProgram.registry).add .empty (.ofIndex 0)).add .empty (.ofIndex 1)
  have growth : earlyProgram.registry.states <+: completedProgram.registry.states :=
    List.prefix_append _ _
  have grown : Grown completedProgram.registry completedGraph :=
    (early.grow growth).add .empty (.ofIndex 2)
  have roots : completedGraph.roots = [1] := by decide +kernel
  have count : completedGraph.nodes.length = 3 := by decide +kernel
  obtain ⟨⟨_, _, mem_iff⟩, _⟩ := invariant_of_grown grown
  simp only [roots, count, List.mem_singleton] at mem_iff
  refine ⟨rfl, roots, ((mem_iff 1).mp rfl).2, ?_, ?_⟩
  · exact fun none => absurd ((mem_iff 0).mpr ⟨by decide, none⟩) (by decide)
  · exact fun none => absurd ((mem_iff 2).mpr ⟨by decide, none⟩) (by decide)

end Graph

end StepPlan
