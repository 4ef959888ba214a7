import StepPlan.Proofs.Schedule.Alignment
import StepPlan.Proofs.Schedule.Soundness
import StepPlan.Proofs.Session.Building

/-! The order in which states arrive at a graph numbers its nodes and names them, and nothing else.
Graphs over the same states have the same keys, edges between the same keys and the same
memberships, so all their schedules agree.
-/

namespace StepPlan

namespace Graph

variable {program : Program} {membership : StateId → Option ClusterId}
  {done arrived : List StateId} {graph other : Graph}

/-- The edges of a graph follow from the live referents of its states, so graphs of the same states
follow each other.
-/
theorem Reflects.follows (reflects : Reflects program membership done graph)
    (others : Reflects program membership arrived other)
    (same : ∀ id, id ∈ done ↔ id ∈ arrived)
    : graph.Follows other where
  distinct := reflects.consistent.distinct
  inside := reflects.consistent.inside
  edge node counterpart next aligned edge := by
    obtain ⟨key, here, there⟩ := aligned
    obtain ⟨id, member, ⟨own, ownKey, place⟩, referent, live, target⟩ := others.edge_iff.mp edge
    cases there.symm.trans place
    obtain ⟨last, lastMember, lastKey⟩ := (others.arrived _).mp (List.mem_of_getElem? target)
    obtain ⟨dependency, dependencyAt⟩ := List.mem_iff_getElem?.mp
      ((reflects.arrived _).mpr ⟨last, (same last).mpr lastMember, lastKey⟩)
    refine ⟨dependency, reflects.edge_iff.mpr ?_, referent.key, dependencyAt, target⟩
    exact ⟨id, (same id).mpr member, ⟨key, ownKey, here⟩, referent, live, dependencyAt⟩
  entry state counterpart found := by
    have member : state ∈ arrived := by
      rw [← others.listed, states, ← entry?_state found]
      exact List.mem_map_of_mem (List.mem_of_find?_eq_some found)
    obtain ⟨otherEntry, otherFound, otherPlace, _, _, otherCluster⟩ := others.exists_entry member
    cases found.symm.trans otherFound
    obtain ⟨entry, entryFound, place, known, _, cluster⟩ :=
      reflects.exists_entry ((same state).mpr member)
    obtain ⟨key, keyOf⟩ := Option.ne_none_iff_exists'.mp known
    refine ⟨entry, entryFound, ⟨key, ?_, ?_⟩, ?_, ?_⟩
    · exact place.symm.trans keyOf
    · exact otherPlace.symm.trans keyOf
    · rw [cluster, otherCluster]
    · rw [entry?_state entryFound, entry?_state found]

end Graph

namespace Session

/-- Two sessions over the same program build their graphs over the same distinct states in different
orders. Both succeed or both fail, and all schedules of the two graphs agree.
-/
theorem schedule_arrival_order {session other : Session} (program : other.program = session.program)
    (exact : session.memo.Exact session.program) (otherExact : other.memo.Exact other.program)
    {states permuted : List StateId} (distinct : states.Nodup) (permutation : states.Perm permuted)
    (clusters : Option ClusterSet)
    : ((∃ graph, (session.buildFor states clusters).1 = .ok graph)
        ↔ ∃ graph, (other.buildFor permuted clusters).1 = .ok graph)
      ∧ ∀ graph otherGraph,
          (session.buildFor states clusters).1 = .ok graph
          → (other.buildFor permuted clusters).1 = .ok otherGraph
          → ∀ chosen, Graph.SameOutcome (graph.schedule chosen) (otherGraph.schedule chosen) := by
  have otherDistinct : permuted.Nodup := permutation.nodup_iff.mp distinct
  have same : ∀ id, id ∈ states ↔ id ∈ permuted := fun id => permutation.mem_iff
  rw [program] at otherExact
  simp only [fst_buildFor, program]
  constructor
  · rw [Graph.exists_build_iff exact clusters distinct,
      Graph.exists_build_iff otherExact clusters otherDistinct]
    simp only [Graph.Closed, same]
  · intro graph otherGraph built otherBuilt chosen
    have reflects := Graph.reflects_of_build exact distinct built
    have others := Graph.reflects_of_build otherExact otherDistinct otherBuilt
    apply Graph.schedule_sameOutcome
    · exact reflects.follows others same
    · exact others.follows reflects fun id => (same id).symm

/-- A session over two pairs and the link between them. -/
def pairs : Session :=
  ⟨Graph.pairsProgram, .standard, .empty, .empty⟩

/-- The graph of the pairs if their states arrive in the given order. -/
def pairsGraph (states : List StateId) : Graph :=
  (pairs.buildFor states (some Graph.pairsClusters)).1.toOption.getD .empty

/-- The graphs number their nodes from opposite ends, and their schedules agree. -/
theorem schedule_arrival_order_pairs
    : (pairsGraph pairs.program.registry.ids).keys.reverse
        = (pairsGraph pairs.program.registry.ids.reverse).keys
      ∧ Graph.SameOutcome
          ((pairsGraph pairs.program.registry.ids).schedule Graph.firstPair)
          ((pairsGraph pairs.program.registry.ids.reverse).schedule Graph.firstPair) := by
  have exact : pairs.memo.Exact pairs.program := Memo.exact_empty _
  have distinct : pairs.program.registry.ids.Nodup := by decide
  have permutation := (List.reverse_perm pairs.program.registry.ids).symm
  constructor
  · cbv
  · apply (schedule_arrival_order rfl exact exact distinct permutation (some Graph.pairsClusters)).2
    · cbv
    · cbv

end Session

end StepPlan
