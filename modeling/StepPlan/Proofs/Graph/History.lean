import Mathlib
import StepPlan.Proofs.Graph.Columns

/-! Edges and the calls that added them. Whatever nodes and edges were added, and in whatever order,
the lists at both ends tell which edges were added: each once, with the reading of the first call
that added it, and the latest in front. Edges in columns tell the same while there are numbers left.
-/

namespace StepPlan

namespace Adjacency

/-- What is asked of a store of edges. -/
inductive Call where
  /-- To append a node. -/
  | node
  /-- To add an edge unless it is there already. -/
  | edge (origin target : Nat) (reading : Reading)
  deriving DecidableEq

/-- The ends of the edge that a call adds. -/
def Call.ends? : Call → Option (Nat × Nat)
  | .node => none
  | .edge origin target _ => some (origin, target)

/-- Whether a call adds an edge with these ends. -/
def Call.adds (ends : Nat × Nat) (call : Call) : Bool :=
  call.ends? == some ends

/-- The edges after one call. -/
def serve (edges : Adjacency) : Call → Adjacency
  | .node => edges.addNode
  | .edge origin target reading => edges.addEdge origin target reading

/-- The edges after calls in a row. -/
def ofCalls (calls : List Call) : Adjacency :=
  calls.foldl serve .empty

/-- The number of nodes that calls append. -/
def nodesIn (calls : List Call) : Nat :=
  calls.count .node

/-- The ends of the edges that calls add, with repetitions. -/
def edgesIn (calls : List Call) : List (Nat × Nat) :=
  calls.filterMap Call.ends?

/-- (Admissible calls) means that every edge is between nodes that were appended before. -/
inductive Admissible : List Call → Prop
  | start : Admissible []
  | node {calls : List Call} (earlier : Admissible calls) : Admissible (calls ++ [.node])
  | edge {calls : List Call} {origin target : Nat} (earlier : Admissible calls)
    (originKnown : origin < nodesIn calls) (targetKnown : target < nodesIn calls)
    (reading : Reading)
    : Admissible (calls ++ [.edge origin target reading])

theorem nodesIn_append_node (calls : List Call)
    : nodesIn (calls ++ [.node]) = nodesIn calls + 1 :=
  List.count_append

theorem nodesIn_append_edge (calls : List Call) (origin target : Nat) (reading : Reading)
    : nodesIn (calls ++ [.edge origin target reading]) = nodesIn calls := by
  simp [nodesIn, List.count_append]

theorem edgesIn_append_node (calls : List Call) : edgesIn (calls ++ [.node]) = edgesIn calls := by
  rw [edgesIn, List.filterMap_append]
  exact List.append_nil _

theorem toFinset_edgesIn_append_edge (calls : List Call) (origin target : Nat) (reading : Reading)
    : (edgesIn (calls ++ [.edge origin target reading])).toFinset
      = insert (origin, target) (edgesIn calls).toFinset := by
  ext ends
  simp [edgesIn, Call.ends?, eq_comm]

-----------------------------------------------------------------------------------------
-- When an edge was first added
-----------------------------------------------------------------------------------------

variable {calls : List Call} {call : Call} {ends : Nat × Nat}

/-- The position of the first call that adds an edge with these ends. -/
def since (calls : List Call) (ends : Nat × Nat) : Nat :=
  calls.findIdx (Call.adds ends)

theorem adds_iff : call.adds ends = true ↔ ∃ reading, call = .edge ends.1 ends.2 reading := by
  cases call <;> simp [Call.adds, Call.ends?, Prod.ext_iff]

theorem adds_eq_false {origin target : Nat} (different : (origin, target) ≠ ends)
    (reading : Reading)
    : (Call.edge origin target reading).adds ends = false := by
  simpa [Call.adds, Call.ends?] using different

theorem mem_edgesIn_iff : ends ∈ edgesIn calls ↔ ∃ call ∈ calls, call.adds ends = true := by
  simp [edgesIn, Call.adds]

theorem since_lt_iff : since calls ends < calls.length ↔ ends ∈ edgesIn calls := by
  rw [since, List.findIdx_lt_length, mem_edgesIn_iff]

theorem since_append (calls more : List Call) (ends : Nat × Nat)
    : since (calls ++ more) ends
      = if since calls ends < calls.length then since calls ends
        else since more ends + calls.length :=
  List.findIdx_append

/-- Later calls do not change when an edge was first added. -/
theorem since_append_of_mem (added : ends ∈ edgesIn calls) (more : List Call)
    : since (calls ++ more) ends = since calls ends := by
  rw [since_append, if_pos (since_lt_iff.mpr added)]

/-- An edge that was not added before is added after all earlier calls. -/
theorem le_since_append (fresh : ends ∉ edgesIn calls) (more : List Call)
    : calls.length ≤ since (calls ++ more) ends := by
  rw [since_append, if_neg fun earlier => fresh (since_lt_iff.mp earlier)]
  exact Nat.le_add_left _ _

/-- The first call that adds an edge stays the first, and calls that add other edges do not
matter.
-/
theorem find?_append_of_settled (settled : ends ∈ edgesIn calls ∨ call.adds ends = false)
    : (calls ++ [call]).find? (Call.adds ends) = calls.find? (Call.adds ends) := by
  rw [List.find?_append]
  rcases settled with added | other
  · obtain ⟨first, found⟩ :=
      Option.isSome_iff_exists.mp (List.find?_isSome.mpr (mem_edgesIn_iff.mp added))
    rw [found, Option.some_or]
  · simp [other]

theorem find?_append_of_fresh (fresh : ends ∉ edgesIn calls) (adds : call.adds ends = true)
    : (calls ++ [call]).find? (Call.adds ends) = some call := by
  have missing : calls.find? (Call.adds ends) = none :=
    List.find?_eq_none.mpr fun earlier member found =>
      fresh (mem_edgesIn_iff.mpr ⟨earlier, member, found⟩)
  rw [List.find?_append, missing, Option.none_or, List.find?_cons_of_pos adds]

/-- (LatestFirst calls ends) means that the edges were first added one after the other, the last of
them being in front. No edge is listed twice then.
-/
def LatestFirst (calls : List Call) (ends : List (Nat × Nat)) : Prop :=
  ends.Pairwise fun later earlier => since calls earlier < since calls later

theorem LatestFirst.append {listed : List (Nat × Nat)} (latestFirst : LatestFirst calls listed)
    (added : ∀ ends ∈ listed, ends ∈ edgesIn calls) (more : List Call)
    : LatestFirst (calls ++ more) listed := by
  refine latestFirst.imp_of_mem fun laterListed earlierListed before => ?_
  rw [since_append_of_mem (added _ laterListed), since_append_of_mem (added _ earlierListed)]
  exact before

/-- A new edge goes in front. -/
theorem LatestFirst.cons {listed : List (Nat × Nat)} (latestFirst : LatestFirst calls listed)
    (added : ∀ ends ∈ listed, ends ∈ edgesIn calls) (fresh : ends ∉ edgesIn calls)
    (more : List Call)
    : LatestFirst (calls ++ more) (ends :: listed) := by
  refine List.pairwise_cons.mpr ⟨fun earlier member => ?_, latestFirst.append added more⟩
  calc since (calls ++ more) earlier
      = since calls earlier := since_append_of_mem (added earlier member) more
    _ < calls.length := since_lt_iff.mpr (added earlier member)
    _ ≤ since (calls ++ more) ends := le_since_append fresh more

-----------------------------------------------------------------------------------------
-- What the lists record
-----------------------------------------------------------------------------------------

variable {edges : Adjacency} {origin target : Nat}

/-- (edges.Records calls) means that the lists at both ends record the edges that calls added: each
once, with the reading of the first call, the latest in front.
-/
structure Records (edges : Adjacency) (calls : List Call) : Prop where
  nodeCount : edges.nodeCount = nodesIn calls
  first
    : ∀ origin target reading,
        (target, reading) ∈ edges.dependencies origin
          ↔ calls.find? (Call.adds (origin, target)) = some (.edge origin target reading)
  dependenciesOrder
    : ∀ origin, LatestFirst calls ((edges.next origin).map fun target => (origin, target))
  mirrored : edges.Mirrored
  dependentsOrder
    : ∀ target, LatestFirst calls ((edges.dependents target).map fun origin => (origin, target))
  edgeCount : edges.edgeCount = (edgesIn calls).toFinset.card

theorem Records.mem_next_iff (records : edges.Records calls)
    : target ∈ edges.next origin ↔ (origin, target) ∈ edgesIn calls := by
  rw [mem_edgesIn_iff, ← List.find?_isSome, Option.isSome_iff_exists]
  constructor
  · intro listed
    obtain ⟨⟨_, reading⟩, member, rfl⟩ := List.mem_map.mp listed
    exact ⟨_, (records.first origin _ reading).mp member⟩
  · rintro ⟨call, found⟩
    obtain ⟨reading, rfl⟩ := adds_iff.mp (List.find?_some found)
    exact List.mem_map_of_mem ((records.first origin target reading).mpr found)

theorem Records.next_added (records : edges.Records calls) (origin : Nat)
    : ∀ ends ∈ (edges.next origin).map (fun target => (origin, target)), ends ∈ edgesIn calls := by
  intro ends member
  obtain ⟨target, listed, rfl⟩ := List.mem_map.mp member
  exact records.mem_next_iff.mp listed

theorem Records.dependents_added (records : edges.Records calls) (target : Nat)
    : ∀ ends ∈ (edges.dependents target).map (fun origin => (origin, target)),
        ends ∈ edgesIn calls := by
  intro ends member
  obtain ⟨origin, listed, rfl⟩ := List.mem_map.mp member
  exact records.mem_next_iff.mp ((records.mirrored origin target).mp listed)

theorem records_empty : empty.Records [] where
  nodeCount := rfl
  first := by simp [empty, dependencies, linksAt]
  dependenciesOrder _ := .nil
  mirrored := mirrored_empty
  dependentsOrder _ := .nil
  edgeCount := rfl

theorem Records.addNode (records : edges.Records calls)
    : edges.addNode.Records (calls ++ [.node]) where
  nodeCount := by
    rw [nodeCount_addNode, records.nodeCount, nodesIn_append_node]
  first := by
    intro origin target reading
    rw [dependencies, linksAt_addNode, find?_append_of_settled (.inr rfl)]
    exact records.first origin target reading
  dependenciesOrder := by
    intro origin
    rw [next_addNode]
    exact (records.dependenciesOrder origin).append (records.next_added origin) _
  mirrored := records.mirrored.addNode
  dependentsOrder := by
    intro target
    rw [dependents, linksAt_addNode]
    exact (records.dependentsOrder target).append (records.dependents_added target) _
  edgeCount := by
    rw [edgeCount_addNode, records.edgeCount, edgesIn_append_node]

/-- A call that adds an edge again changes nothing, whatever its reading. -/
theorem Records.repeated (records : edges.Records calls) (added : (origin, target) ∈ edgesIn calls)
    (reading : Reading)
    : edges.Records (calls ++ [.edge origin target reading]) where
  nodeCount := by rw [nodesIn_append_edge, records.nodeCount]
  first := by
    intro other found kept
    rw [find?_append_of_settled]
    · exact records.first other found kept
    · by_cases same : (origin, target) = (other, found)
      · exact .inl (same ▸ added)
      · exact .inr (adds_eq_false same reading)
  dependenciesOrder other := (records.dependenciesOrder other).append (records.next_added other) _
  mirrored := records.mirrored
  dependentsOrder other :=
    (records.dependentsOrder other).append (records.dependents_added other) _
  edgeCount := by
    rw [toFinset_edgesIn_append_edge, Finset.insert_eq_of_mem (List.mem_toFinset.mpr added),
      records.edgeCount]

/-- A call that adds a new edge puts it in front at both ends. -/
theorem Records.link (records : edges.Records calls) (fresh : (origin, target) ∉ edgesIn calls)
    (originKnown : origin < edges.nodeCount) (targetKnown : target < edges.nodeCount)
    (reading : Reading)
    : (edges.link origin target reading).Records (calls ++ [.edge origin target reading]) := by
  have unlisted : target ∉ edges.next origin := fun listed => fresh (records.mem_next_iff.mp listed)
  have linked := addEdge_of_not_mem unlisted reading
  refine ⟨?_, ?_, ?_, ?_, ?_, ?_⟩
  · rw [← linked, nodeCount_addEdge, nodesIn_append_edge, records.nodeCount]
  · intro other found kept
    rw [dependencies_link]
    by_cases same : (origin, target) = (other, found)
    · obtain ⟨rfl, rfl⟩ := Prod.mk.inj same
      have absent : (target, kept) ∉ edges.dependencies origin :=
        fun member => unlisted (List.mem_map_of_mem member)
      rw [find?_append_of_fresh fresh (adds_iff.mpr ⟨reading, rfl⟩), if_pos ⟨rfl, originKnown⟩]
      simp [absent, eq_comm]
    · rw [find?_append_of_settled (.inr (adds_eq_false same reading)), ← records.first]
      by_cases here : origin = other ∧ other < edges.nodeCount
      · have different : found ≠ target := fun equal => same (by rw [here.1, equal])
        simp [here, different]
      · rw [if_neg here]
  · intro other
    rw [next_link]
    by_cases here : origin = other ∧ other < edges.nodeCount
    · rw [if_pos here, ← here.1]
      exact (records.dependenciesOrder origin).cons (records.next_added origin) fresh _
    · rw [if_neg here]
      exact (records.dependenciesOrder other).append (records.next_added other) _
  · rw [← linked]
    exact records.mirrored.addEdge originKnown targetKnown reading
  · intro other
    rw [dependents_link]
    by_cases here : target = other ∧ other < edges.nodeCount
    · rw [if_pos here, ← here.1]
      exact (records.dependentsOrder target).cons (records.dependents_added target) fresh _
    · rw [if_neg here]
      exact (records.dependentsOrder other).append (records.dependents_added other) _
  · rw [edgeCount_link originKnown targetKnown, toFinset_edgesIn_append_edge,
      Finset.card_insert_of_notMem (mt List.mem_toFinset.mp fresh), records.edgeCount]

theorem Records.addEdge (records : edges.Records calls) (originKnown : origin < edges.nodeCount)
    (targetKnown : target < edges.nodeCount) (reading : Reading)
    : (edges.addEdge origin target reading).Records
        (calls ++ [.edge origin target reading]) := by
  by_cases present : target ∈ edges.next origin
  · rw [addEdge_of_mem present]
    exact records.repeated (records.mem_next_iff.mp present) reading
  · rw [addEdge_of_not_mem present]
    exact records.link (mt records.mem_next_iff.mpr present) originKnown targetKnown reading

theorem ofCalls_append (calls : List Call) (call : Call)
    : ofCalls (calls ++ [call]) = (ofCalls calls).serve call :=
  List.foldl_append

/-- The lists record all calls, by induction on the calls. -/
theorem Admissible.records (admissible : Admissible calls) : (ofCalls calls).Records calls := by
  induction admissible with
  | start => exact records_empty
  | node _ ih =>
      rw [ofCalls_append]
      exact ih.addNode
  | edge _ originKnown targetKnown reading ih =>
      rw [ofCalls_append]
      rw [← ih.nodeCount] at originKnown targetKnown
      exact ih.addEdge originKnown targetKnown reading

/-- (edges.Faithful calls) means that the lists record the calls and that the questions about single
edges are answered accordingly.
-/
structure Faithful (edges : Adjacency) (calls : List Call) : Prop extends edges.Records calls where
  hasEdge_iff
    : ∀ origin target, edges.hasEdge origin target = true ↔ target ∈ edges.next origin
  isNew_iff
    : ∀ origin target reading,
        (edges.insertEdge? origin target reading).isSome = true ↔ (origin, target) ∉ edgesIn calls

theorem Records.faithful (records : edges.Records calls) : edges.Faithful calls where
  toRecords := records
  hasEdge_iff _ _ := hasEdge_iff_mem
  isNew_iff origin target reading := by
    rw [← records.mem_next_iff, ← hasEdge_iff_mem, insertEdge?]
    cases edges.hasEdge origin target <;> simp

end Adjacency

-----------------------------------------------------------------------------------------
-- Edges in columns
-----------------------------------------------------------------------------------------

namespace EdgeColumns

open Adjacency (Call Admissible nodesIn edgesIn)

/-- The columns after one call. -/
def serve (columns : EdgeColumns) : Call → EdgeColumns
  | .node => columns.addNode
  | .edge origin target reading => (columns.insertEdge origin target reading).2

/-- The columns after calls in a row. -/
def ofCalls (calls : List Call) : EdgeColumns :=
  calls.foldl serve .empty

variable {calls : List Call}

theorem ofCalls_append (calls : List Call) (call : Call)
    : ofCalls (calls ++ [call]) = (ofCalls calls).serve call :=
  List.foldl_append

/-- The columns hold the edges after all calls, by induction on the calls. An edge that is added
again takes no number, so it is the different edges that count.
-/
theorem holds_ofCalls (admissible : Admissible calls) (fewNodes : nodesIn calls ≤ UInt32.size)
    (fewEdges : (edgesIn calls).toFinset.card ≤ Chains.stop.toNat)
    : (ofCalls calls).Holds (.ofCalls calls) := by
  induction admissible with
  | start => exact holds_empty
  | node _ ih =>
      rw [Adjacency.nodesIn_append_node] at fewNodes
      rw [Adjacency.edgesIn_append_node] at fewEdges
      rw [ofCalls_append, Adjacency.ofCalls_append]
      exact (ih (Nat.le_of_succ_le fewNodes) fewEdges).addNode
  | @edge calls origin target earlier originKnown targetKnown reading ih =>
      have records := earlier.records
      have after := (earlier.edge originKnown targetKnown reading).records
      rw [Adjacency.nodesIn_append_edge] at fewNodes
      have holds := ih fewNodes (Nat.le_trans (Finset.card_le_card (by
        rw [Adjacency.toFinset_edgesIn_append_edge]
        exact Finset.subset_insert _ _)) fewEdges)
      rw [← after.edgeCount, Adjacency.ofCalls_append] at fewEdges
      rw [← records.nodeCount] at originKnown targetKnown fewNodes
      rw [ofCalls_append, Adjacency.ofCalls_append]
      exact holds.insertEdge_snd originKnown targetKnown fewNodes reading fewEdges

end EdgeColumns

namespace Adjacency

/-- After any calls that add edges between nodes that exist, the lists at both ends are faithful to
the calls, and the same edges in columns give the same answers with walks that end.
-/
theorem faithful_ofCalls {calls : List Call} (admissible : Admissible calls)
    (fewNodes : nodesIn calls < 2 ^ 32 - 1)
    (fewEdges : (edgesIn calls).toFinset.card < 2 ^ 32 - 1)
    : (ofCalls calls).Faithful calls ∧ (EdgeColumns.ofCalls calls).Agrees (ofCalls calls) := by
  have records := admissible.records
  have nodesSmall : nodesIn calls ≤ UInt32.size :=
    Nat.le_trans (Nat.le_of_lt fewNodes) (by decide)
  have edgesSmall : (edgesIn calls).toFinset.card ≤ Chains.stop.toNat := Nat.le_of_lt fewEdges
  have holds := EdgeColumns.holds_ofCalls admissible nodesSmall edgesSmall
  rw [← records.nodeCount] at nodesSmall
  rw [← records.edgeCount] at edgesSmall
  exact ⟨records.faithful, holds.agrees records.mirrored nodesSmall edgesSmall⟩

/-- Three nodes, three edges, and a call that adds the first edge again for another reading. -/
def sharedTarget : List Call :=
  [.node, .node, .node, .edge 0 1 .var, .edge 0 2 .draw, .edge 2 1 .var, .edge 0 1 .slot]

theorem admissible_sharedTarget : Admissible sharedTarget := by
  have nodes : Admissible [.node, .node, .node] := .node (.node (.node .start))
  have first := nodes.edge (by decide : 0 < _) (by decide : 1 < _) .var
  have second := first.edge (by decide : 0 < _) (by decide : 2 < _) .draw
  have third := second.edge (by decide : 2 < _) (by decide : 1 < _) .var
  exact third.edge (by decide : 0 < _) (by decide : 1 < _) .slot

theorem faithful_ofCalls_sharedTarget
    : (ofCalls sharedTarget).Faithful sharedTarget
      ∧ (EdgeColumns.ofCalls sharedTarget).Agrees (ofCalls sharedTarget)
      ∧ (ofCalls sharedTarget).dependencies 0 = [(2, .draw), (1, .var)]
      ∧ (ofCalls sharedTarget).dependents 1 = [2, 0] := by
  obtain ⟨faithful, agrees⟩ := faithful_ofCalls admissible_sharedTarget (by decide) (by decide)
  exact ⟨faithful, agrees, by decide, by decide⟩

end Adjacency

end StepPlan
