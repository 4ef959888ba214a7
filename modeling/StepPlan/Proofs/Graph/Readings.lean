import StepPlan.Proofs.Graph.Building

/-! Where edges come from. Every edge and every parked reference goes back to a live referent of a
state at its node, with the reading that is kept for it. This holds for any list of states, also one
in which a state arrives more than once.
-/

namespace StepPlan

namespace Adjacency

/-- After an edge is added, its origin lists it with its reading, and nothing else is new. -/
theorem mem_dependencies_of_addEdge {edges : Adjacency} {node dependency other : Nat}
    {reading : Reading} {found : Nat × Reading}
    (member : found ∈ (edges.addEdge node dependency reading).dependencies other)
    : found ∈ edges.dependencies other ∨ (other = node ∧ found = (dependency, reading)) := by
  unfold addEdge insertEdge? at member
  split at member
  · exact Or.inl member
  · rw [Option.getD_some, dependencies, linksAt_link] at member
    dsimp only at member
    split at member
    · rename_i origin
      rcases List.mem_cons.mp member with same | earlier
      · exact Or.inr ⟨origin.1.symm, same⟩
      · exact Or.inl earlier
    · exact Or.inl member

end Adjacency

namespace Graph

/-- References that wake up keep their readings, by induction on them. -/
theorem mem_dependencies_of_wake {edges : Adjacency} {waiting : List (Nat × Reading)}
    {node other dependency : Nat} {reading : Reading}
    (member : (dependency, reading) ∈ (wake edges node waiting).dependencies other)
    : (dependency, reading) ∈ edges.dependencies other
      ∨ (dependency = node ∧ (other, reading) ∈ waiting) := by
  induction waiting generalizing edges with
  | nil => exact Or.inl member
  | cons reference rest ih =>
      rcases ih member with earlier | ⟨same, later⟩
      · rcases Adjacency.mem_dependencies_of_addEdge earlier with older | ⟨origin, same⟩
        · exact Or.inl older
        · cases origin
          cases same
          exact Or.inr ⟨rfl, List.mem_cons_self⟩
      · exact Or.inr ⟨same, List.mem_cons_of_mem _ later⟩

variable {program : Program} {states : List StateId} {graph : Graph}

/-- (graph.Asks program states node referent) means that the referent is a live one of a listed
state at the node.
-/
def Asks (graph : Graph) (program : Program) (states : List StateId) (node : Nat)
    (referent : Referent)
    : Prop :=
  ∃ id ∈ states,
    (∃ own, program.keyOf? id = some own ∧ graph.keys[node]? = some own)
    ∧ program.Live id referent

/-- (graph.Sourced program states) means that the keys of all listed states have arrived, and that
everything recorded goes back to a live referent.
-/
structure Sourced (graph : Graph) (program : Program) (states : List StateId) : Prop where
  consistent : graph.Consistent
  arrived : ∀ id ∈ states, ∀ key, program.keyOf? id = some key → key ∈ graph.keys
  edges
    : ∀ node dependency reading,
        (dependency, reading) ∈ graph.edges.dependencies node
        → ∃ key, graph.keys[dependency]? = some key ∧ graph.Asks program states node ⟨key, reading⟩
  parked
    : ∀ key waiting,
        (key, waiting) ∈ graph.parked
        → ∀ node reading,
            (node, reading) ∈ waiting → graph.Asks program states node ⟨key, reading⟩

theorem sourced_empty (program : Program) : Graph.empty.Sourced program [] where
  consistent := consistent_empty
  arrived := nofun
  edges node dependency reading member := by
    simp [Graph.empty, Adjacency.dependencies, Adjacency.linksAt, Adjacency.empty] at member
  parked := nofun

theorem Asks.mono {next : Graph} {more : List StateId} {node : Nat} {referent : Referent}
    (asks : graph.Asks program states node referent) (listed : states ⊆ more)
    (stays
      : ∀ (other : Nat) (key : Key),
          graph.keys[other]? = some key → next.keys[other]? = some key)
    : next.Asks program more node referent := by
  obtain ⟨id, member, ⟨own, key, place⟩, live⟩ := asks
  exact ⟨id, listed member, ⟨own, key, stays node own place⟩, live⟩

/-- A change that keeps the wiring keeps what edges come from. -/
theorem Sourced.sameWiring {next : Graph} (sourced : graph.Sourced program states)
    (same : graph.SameWiring next)
    : next.Sourced program states where
  consistent := same.consistent sourced.consistent
  arrived := same.keys ▸ sourced.arrived
  edges node dependency reading member := by
    rw [same.edges] at member
    obtain ⟨key, place, asks⟩ := sourced.edges node dependency reading member
    exact ⟨key, same.keys ▸ place, asks.mono (List.Subset.refl _) fun _ _ => same.keys ▸ id⟩
  parked key waiting member node reading inside := by
    rw [same.parked] at member
    exact (sourced.parked key waiting member node reading inside).mono (List.Subset.refl _)
      fun _ _ => same.keys ▸ id

/-- A key that arrives takes over the references that waited for it. -/
theorem Sourced.arrive (sourced : graph.Sourced program states) {key : Key}
    (fresh : key ∉ graph.keys) (state : StateId)
    : (graph.arrive key state).Sourced program states := by
  have stays : ∀ (other : Nat) (old : Key),
      graph.keys[other]? = some old → (graph.arrive key state).keys[other]? = some old :=
    fun other old place => (graph.getElem?_keys_arrive key state other old).mpr (Or.inl place)
  obtain ⟨waiting, roots, found, result⟩ := graph.arrive_eq key state
  refine {
    consistent := sourced.consistent.arrive fresh state
    arrived := ?_
    edges := ?_
    parked := ?_
  }
  · intro id member own ownKey
    rw [keys_arrive]
    exact List.mem_append_left _ (sourced.arrived id member own ownKey)
  · intro node dependency reading member
    rw [result] at member
    rcases mem_dependencies_of_wake member with earlier | ⟨same, inside⟩
    · rw [Adjacency.dependencies, Adjacency.linksAt_addNode] at earlier
      obtain ⟨old, place, asks⟩ := sourced.edges node dependency reading earlier
      exact ⟨old, stays dependency old place, asks.mono (List.Subset.refl _) stays⟩
    · have place := (graph.getElem?_keys_arrive key state dependency key).mpr (Or.inr ⟨same, rfl⟩)
      rcases found with found | ⟨_, none⟩
      · have asks := sourced.parked key waiting (mem_of_lookup found) node reading inside
        exact ⟨key, place, asks.mono (List.Subset.refl _) stays⟩
      · rw [none] at inside
        cases inside
  · intro other otherWaiting member node reading inside
    rw [result] at member
    have asks := sourced.parked other otherWaiting (List.mem_filter.mp member).1 node reading inside
    exact asks.mono (List.Subset.refl _) stays

theorem Sourced.place (sourced : graph.Sourced program states) (id : StateId) (state : State)
    : (graph.place id state).2.Sourced program states := by
  cases found : graph.nodeOfKey? state.key with
  | some node => exact sourced.sameWiring (sameWiring_place_of_known found id)
  | none =>
      have fresh := nodeOfKey?_eq_none_iff.mp found
      exact (sourced.arrive fresh id).sameWiring (sameWiring_place_of_new found id)

/-- A state that is listed last has its key among those that have arrived. -/
theorem Sourced.enlist (sourced : graph.Sourced program states) {id : StateId}
    (arrived : ∀ key, program.keyOf? id = some key → key ∈ graph.keys)
    : graph.Sourced program (states ++ [id]) where
  consistent := sourced.consistent
  arrived := List.forall_mem_append.mpr ⟨sourced.arrived, List.forall_mem_singleton.mpr arrived⟩
  edges node dependency reading member := by
    obtain ⟨key, place, asks⟩ := sourced.edges node dependency reading member
    exact ⟨key, place, asks.mono (List.subset_append_left _ _) fun _ _ here => here⟩
  parked key waiting member node reading inside :=
    (sourced.parked key waiting member node reading inside).mono (List.subset_append_left _ _)
      fun _ _ here => here

/-- A live referent of a state at a node may be added or parked. -/
theorem Sourced.refer (sourced : graph.Sourced program states) {node : Nat}
    (known : node < graph.nodes.length) {referent : Referent}
    (asks : graph.Asks program states node referent)
    : (Graph.refer node graph referent).Sourced program states := by
  have consistent := sourced.consistent.refer known referent
  cases found : graph.nodeOfKey? referent.key with
  | some dependency =>
      rw [refer_of_known found] at consistent ⊢
      refine { sourced with consistent := consistent, edges := ?_ }
      intro other otherDependency reading member
      rcases Adjacency.mem_dependencies_of_addEdge member with earlier | ⟨origin, same⟩
      · exact sourced.edges other otherDependency reading earlier
      · cases origin
        cases same
        exact ⟨referent.key, getElem?_of_nodeOfKey? found, asks⟩
  | none =>
      rw [refer_of_new found] at consistent ⊢
      refine { sourced with consistent := consistent, parked := ?_ }
      intro key waiting member other reading inside
      rcases mem_park member with ⟨old, _⟩ | ⟨before, same, origin⟩
      · exact sourced.parked key waiting old other reading inside
      · cases same
        rcases List.mem_append.mp inside with earlier | last
        · rcases origin with old | ⟨none, _⟩
          · exact sourced.parked _ before old other reading earlier
          · rw [none] at earlier
            nomatch earlier
        · cases List.mem_singleton.mp last
          exact asks

/-- Live referents of a state at a node may be added one after the other, by induction on them. -/
theorem Sourced.foldl_refer (sourced : graph.Sourced program states) {node : Nat}
    (known : node < graph.nodes.length) {referents : List Referent}
    (asks : ∀ referent ∈ referents, graph.Asks program states node referent)
    : (referents.foldl (Graph.refer node) graph).Sourced program states := by
  induction referents generalizing graph with
  | nil => exact sourced
  | cons referent rest ih =>
      obtain ⟨first, later⟩ := List.forall_mem_cons.mp asks
      apply ih (sourced.refer known first)
      · rw [nodes_refer]
        exact known
      · intro other member
        refine (later other member).mono (List.Subset.refl _) fun node key place => ?_
        rw [keys, nodes_refer]
        exact place

variable {memo : Memo}

/-- A state that is added with an exact memo brings its live referents along. -/
theorem Sourced.add (sourced : graph.Sourced program states) (exact : memo.Exact program)
    {id : StateId} {node : Nat} {next : Graph} {later : Memo}
    (added : graph.add program memo id = (.ok node, next, later))
    : next.Sourced program (states ++ [id]) := by
  unfold Graph.add Registry.get at added
  cases registered : program.registry.get? id with
  | none => simp [registered] at added
  | some state =>
      have key := Program.keyOf?_of_get? registered
      have arrival := placed_place sourced.consistent id state
      have here : ∀ own, program.keyOf? id = some own → own ∈ (graph.place id state).2.keys := by
        intro own same
        cases key.symm.trans same
        exact List.mem_of_getElem? arrival.here
      have placed := (sourced.place id state).enlist here
      simp only [registered] at added
      split at added
      · cases added
        exact placed
      · rename_i needed
        have resolves := (Program.referents_resolves exact state.role.stage state.formula).1
        split at added <;> rename_i outcome
        · nomatch added
        · cases added
          rw [outcome] at resolves
          have known : (graph.place id state).1 < (graph.place id state).2.nodes.length := by
            simpa [keys] using (List.getElem?_eq_some_iff.mp arrival.here).1
          refine placed.foldl_refer known fun referent member => ?_
          obtain ⟨inside, other⟩ := List.mem_filter.mp member
          refine ⟨id, List.mem_append_right _ List.mem_cons_self, ⟨_, key, arrival.here⟩, state,
            registered, ?_, (resolves.2 referent).mp inside, ?_⟩
          · exact mt Program.isBareInitializer_iff.mpr needed
          · rw [← isOwn_iff]
            simpa using other

theorem sameWiring_setCluster {next : Graph} {id : StateId} {cluster : ClusterId}
    (marked : graph.setCluster id cluster = .ok next)
    : graph.SameWiring next := by
  unfold setCluster at marked
  split at marked
  · nomatch marked
  · cases marked
    exact ⟨map_key_modify _ _ _ fun _ => rfl, rfl, rfl⟩

/-- Everything recorded in a graph goes back to live referents of the states it was built from, by
induction on the states.
-/
theorem Sourced.addAll (sourced : graph.Sourced program states) (exact : memo.Exact program)
    {clusters : Option ClusterSet} {more : List StateId} {last : Graph}
    (built : (graph.addAll program memo clusters more).1 = .ok last)
    : last.Sourced program (states ++ more) := by
  induction more generalizing graph states memo with
  | nil =>
      cases built
      rw [List.append_nil]
      exact sourced
  | cons id rest ih =>
      rw [List.append_cons]
      have kept := exact_add exact graph id
      unfold Graph.addAll at built
      split at built <;> rename_i outcome
      · cases built
      · rw [outcome] at kept
        have next := sourced.add exact outcome
        split at built
        · exact ih next kept built
        · split at built <;> rename_i marked
          · cases built
          · exact ih (next.sameWiring (sameWiring_setCluster marked)) kept built

end Graph

end StepPlan
