import Mathlib.Data.List.Nodup
import StepPlan.Proofs.Graph.Construction

/-! Edges and parked references are one record. A node refers to a key by an edge to the node of the
key or, before the key has arrived, by a parked reference. The arrival of a key turns the one into
the other, so what is recorded changes only when a state is connected to its referents.
-/

namespace StepPlan

-----------------------------------------------------------------------------------------
-- Adding edges
-----------------------------------------------------------------------------------------

namespace Adjacency

@[simp] theorem nodeCount_addNode (edges : Adjacency)
    : edges.addNode.nodeCount = edges.nodeCount + 1 := by
  simp [nodeCount, addNode]

@[simp] theorem nodeCount_addEdge (edges : Adjacency) (node dependency : Nat) (reading : Reading)
    : (edges.addEdge node dependency reading).nodeCount = edges.nodeCount := by
  unfold addEdge insertEdge?
  split
  · rfl
  · simp [nodeCount, link]

/-- An edge from a node that exists is there once it is added, and no other edge is new. -/
theorem mem_next_addEdge {edges : Adjacency} {node : Nat} (known : node < edges.nodeCount)
    (dependency : Nat) (reading : Reading) (other found : Nat)
    : found ∈ (edges.addEdge node dependency reading).next other
      ↔ found ∈ edges.next other ∨ (other = node ∧ found = dependency) := by
  refine ⟨mem_next_of_addEdge, fun present => ?_⟩
  unfold addEdge insertEdge?
  split
  · rename_i old
    rcases present with earlier | ⟨same, target⟩
    · exact earlier
    · subst other found
      exact List.contains_iff_mem.mp old
  · rw [Option.getD_some, next_link]
    rcases present with earlier | ⟨same, target⟩
    · split
      · exact List.mem_cons_of_mem _ earlier
      · exact earlier
    · subst other found
      rw [if_pos ⟨rfl, known⟩]
      exact List.mem_cons_self

/-- An edge that is new is put in front at its origin, and one that is there changes nothing. -/
theorem next_addEdge (edges : Adjacency) (node dependency : Nat) (reading : Reading) (other : Nat)
    : (edges.addEdge node dependency reading).next other
      = if dependency ∉ edges.next node ∧ node = other ∧ other < edges.nodeCount then
          dependency :: edges.next other
        else edges.next other := by
  unfold addEdge insertEdge? hasEdge
  by_cases present : dependency ∈ edges.next node
  · simp [present]
  · simp [present, next_link]

theorem dependents_addEdge (edges : Adjacency) (node dependency : Nat) (reading : Reading)
    (other : Nat)
    : (edges.addEdge node dependency reading).dependents other
      = if dependency ∉ edges.next node ∧ dependency = other ∧ other < edges.nodeCount then
          node :: edges.dependents other
        else edges.dependents other := by
  unfold addEdge insertEdge? hasEdge
  by_cases present : dependency ∈ edges.next node
  · simp [present]
  · simp [present, dependents, linksAt_link]

end Adjacency

namespace Graph

@[simp] theorem nodeCount_wake (edges : Adjacency) (node : Nat) (waiting : List (Nat × Reading))
    : (wake edges node waiting).nodeCount = edges.nodeCount := by
  unfold wake
  induction waiting generalizing edges with
  | nil => rfl
  | cons reference rest ih => rw [List.foldl_cons, ih, Adjacency.nodeCount_addEdge]

/-- The references that wake up become edges to the node that has arrived, by induction on the
references.
-/
theorem mem_next_wake {edges : Adjacency} {waiting : List (Nat × Reading)}
    (known : ∀ reference ∈ waiting, reference.1 < edges.nodeCount) (node other found : Nat)
    : found ∈ (wake edges node waiting).next other
      ↔ found ∈ edges.next other ∨ (other ∈ waiting.map Prod.fst ∧ found = node) := by
  induction waiting generalizing edges with
  | nil => simp [wake]
  | cons reference rest ih =>
      obtain ⟨first, later⟩ := List.forall_mem_cons.mp known
      have step := @ih (edges.addEdge reference.1 node reference.2) (by simpa using later)
      rw [Adjacency.mem_next_addEdge first] at step
      simpa [wake, or_and_right, or_assoc] using step

-----------------------------------------------------------------------------------------
-- Keys and their nodes
-----------------------------------------------------------------------------------------

/-- The keys that have arrived, each at the position of its node. -/
def keys (graph : Graph) : List Key :=
  graph.nodes.map Node.key

theorem nodeOfKey?_eq_none_iff {graph : Graph} {key : Key}
    : graph.nodeOfKey? key = none ↔ key ∉ graph.keys := by
  simp [nodeOfKey?, keys]

theorem getElem?_of_nodeOfKey? {graph : Graph} {key : Key} {node : Nat}
    (found : graph.nodeOfKey? key = some node)
    : graph.keys[node]? = some key := by
  obtain ⟨bound, same, _⟩ := List.findIdx?_eq_some_iff_getElem.mp found
  simpa [keys, List.getElem?_eq_getElem bound] using same

/-- Where keys are distinct, the node of a key is the place at which the key stands. -/
theorem nodeOfKey?_eq_some_iff {graph : Graph} (distinct : graph.keys.Nodup) {key : Key}
    {node : Nat}
    : graph.nodeOfKey? key = some node ↔ graph.keys[node]? = some key := by
  refine ⟨getElem?_of_nodeOfKey?, fun here => ?_⟩
  cases found : graph.nodeOfKey? key with
  | none => exact absurd (List.mem_of_getElem? here) (nodeOfKey?_eq_none_iff.mp found)
  | some other =>
      have there := getElem?_of_nodeOfKey? found
      obtain ⟨bound, _⟩ := List.getElem?_eq_some_iff.mp there
      rw [(List.getElem?_inj bound distinct).mp (there.trans here.symm)]

/-- What holds of nodes, edges and parked references at every moment of a construction. -/
structure Consistent (graph : Graph) : Prop where
  distinct : graph.keys.Nodup
  counted : graph.edges.nodeCount = graph.nodes.length
  inside : graph.EdgesInside
  parkedOnce : (graph.parked.map Prod.fst).Nodup
  parkedAbsent : ∀ entry ∈ graph.parked, entry.1 ∉ graph.keys
  parkedUsed : ∀ entry ∈ graph.parked, entry.2 ≠ []
  parkedInside
    : ∀ entry ∈ graph.parked, ∀ reference ∈ entry.2, reference.1 < graph.nodes.length

theorem consistent_empty : Graph.empty.Consistent := by
  refine ⟨?_, rfl, Adjacency.below_empty _, ?_, ?_, ?_, ?_⟩ <;> simp [Graph.empty, keys]

/-- A reference of a node waits for a key. -/
def Waits (graph : Graph) (node : Nat) (key : Key) : Prop :=
  ∃ waiting, (key, waiting) ∈ graph.parked ∧ node ∈ waiting.map Prod.fst

/-- A node refers to a key, by an edge or by a reference that waits. -/
def Recorded (graph : Graph) (node : Nat) (key : Key) : Prop :=
  (∃ dependency, graph.keys[dependency]? = some key ∧ graph.Edge node dependency)
  ∨ graph.Waits node key

-----------------------------------------------------------------------------------------
-- Arrivals
-----------------------------------------------------------------------------------------

theorem eq_of_mem_parked {graph : Graph} (consistent : graph.Consistent) {key : Key}
    {first second : List (Nat × Reading)} (one : (key, first) ∈ graph.parked)
    (other : (key, second) ∈ graph.parked)
    : first = second :=
  congrArg Prod.snd (List.inj_on_of_nodup_map consistent.parkedOnce one other rfl)

theorem mem_of_lookup {parked : List (Key × List (Nat × Reading))} {key : Key}
    {waiting : List (Nat × Reading)} (found : parked.lookup key = some waiting)
    : (key, waiting) ∈ parked := by
  obtain ⟨before, after, split, _⟩ := List.lookup_eq_some_iff.mp found
  rw [split]
  exact List.mem_append_right _ List.mem_cons_self

theorem not_mem_of_lookup {parked : List (Key × List (Nat × Reading))} {key : Key}
    (missing : parked.lookup key = none) (waiting : List (Nat × Reading))
    : (key, waiting) ∉ parked := by
  intro member
  simpa using List.lookup_eq_none_iff.mp missing _ member

/-- The arrival of a key appends a node, and the edges of nodes that waited for it. -/
theorem arrive_eq (graph : Graph) (key : Key) (state : StateId)
    : ∃ waiting roots,
        (graph.parked.lookup key = some waiting
          ∨ graph.parked.lookup key = none ∧ waiting = [])
        ∧ graph.arrive key state
          = { graph with
              nodes := graph.nodes ++ [⟨key, [state], none⟩]
              edges := wake graph.edges.addNode graph.nodes.length waiting
              roots := roots
              parked := graph.parked.filter fun parked => parked.1 ≠ key } := by
  unfold arrive
  dsimp only
  split
  · rename_i waiting found
    exact ⟨waiting, graph.roots, Or.inl found, rfl⟩
  · rename_i missing
    refine ⟨[], graph.roots ++ [graph.nodes.length], Or.inr ⟨missing, rfl⟩, ?_⟩
    have kept : graph.parked.filter (fun parked => parked.1 ≠ key) = graph.parked := by
      refine List.filter_eq_self.mpr fun parked member => decide_eq_true fun same => ?_
      exact not_mem_of_lookup missing parked.2 (same ▸ member)
    rw [kept]
    rfl

@[simp] theorem keys_arrive (graph : Graph) (key : Key) (state : StateId)
    : (graph.arrive key state).keys = graph.keys ++ [key] := by
  obtain ⟨waiting, roots, _, result⟩ := graph.arrive_eq key state
  simp [result, keys]

theorem Consistent.arrive {graph : Graph} (consistent : graph.Consistent) {key : Key}
    (fresh : key ∉ graph.keys) (state : StateId)
    : (graph.arrive key state).Consistent := by
  have inside := consistent.inside.arrive key state
  obtain ⟨waiting, roots, _, result⟩ := graph.arrive_eq key state
  have kept : ∀ entry ∈ (graph.arrive key state).parked, entry ∈ graph.parked ∧ entry.1 ≠ key := by
    intro entry member
    rw [result] at member
    exact (List.mem_filter.mp member).imp_right of_decide_eq_true
  refine {
    distinct := ?_
    counted := by simp [result, consistent.counted]
    inside := inside
    parkedOnce := ?_
    parkedAbsent := ?_
    parkedUsed := fun entry member => consistent.parkedUsed entry (kept entry member).1
    parkedInside := ?_
  }
  · rw [keys_arrive, ← List.concat_eq_append]
    exact consistent.distinct.concat fresh
  · rw [result]
    exact consistent.parkedOnce.sublist (List.filter_sublist.map _)
  · intro entry member
    rw [keys_arrive, List.mem_append, List.mem_singleton]
    rintro (old | same)
    · exact consistent.parkedAbsent entry (kept entry member).1 old
    · exact (kept entry member).2 same
  · intro entry member reference listed
    have below := consistent.parkedInside entry (kept entry member).1 reference listed
    simp only [result, List.length_append, List.length_singleton]
    omega

/-- The references that wait for a key come from nodes that exist. -/
theorem Consistent.waiting_known {graph : Graph} (consistent : graph.Consistent) {key : Key}
    {waiting : List (Nat × Reading)}
    (found : graph.parked.lookup key = some waiting
      ∨ graph.parked.lookup key = none ∧ waiting = [])
    : ∀ reference ∈ waiting, reference.1 < graph.edges.addNode.nodeCount := by
  rw [Adjacency.nodeCount_addNode, consistent.counted]
  rcases found with found | ⟨_, none⟩
  · intro reference member
    exact Nat.lt_succ_of_lt (consistent.parkedInside _ (mem_of_lookup found) reference member)
  · simp [none]

theorem edge_arrive_iff {graph : Graph} (consistent : graph.Consistent) (key : Key)
    (state : StateId) (node dependency : Nat)
    : (graph.arrive key state).Edge node dependency
      ↔ graph.Edge node dependency
        ∨ (graph.Waits node key ∧ dependency = graph.nodes.length) := by
  obtain ⟨waiting, roots, found, result⟩ := graph.arrive_eq key state
  have awaited : graph.Waits node key ↔ node ∈ waiting.map Prod.fst := by
    rcases found with found | ⟨missing, none⟩
    · refine ⟨fun ⟨parked, member, inside⟩ => ?_, fun inside => ⟨_, mem_of_lookup found, inside⟩⟩
      exact eq_of_mem_parked consistent member (mem_of_lookup found) ▸ inside
    · subst none
      exact ⟨fun ⟨parked, member, _⟩ => absurd member (not_mem_of_lookup missing parked), nofun⟩
  rw [Edge, result, awaited]
  dsimp only
  rw [mem_next_wake (consistent.waiting_known found), Adjacency.next_addNode]
  rfl

theorem waits_arrive_iff (graph : Graph) (key : Key) (state : StateId) (node : Nat) (other : Key)
    : (graph.arrive key state).Waits node other ↔ graph.Waits node other ∧ other ≠ key := by
  obtain ⟨waiting, roots, _, result⟩ := graph.arrive_eq key state
  simp only [Waits, result, List.mem_filter, decide_eq_true_eq]
  grind

theorem getElem?_keys_arrive (graph : Graph) (key : Key) (state : StateId) (node : Nat)
    (other : Key)
    : (graph.arrive key state).keys[node]? = some other
      ↔ graph.keys[node]? = some other ∨ (node = graph.nodes.length ∧ other = key) := by
  have length : graph.keys.length = graph.nodes.length := List.length_map _
  rw [keys_arrive, ← length]
  rcases Nat.lt_trichotomy node graph.keys.length with below | same | above
  · rw [List.getElem?_append_left below]
    simp [Nat.ne_of_lt below]
  · subst same
    simp [eq_comm]
  · rw [List.getElem?_eq_none (by simp; omega), List.getElem?_eq_none (by omega)]
    simp [Nat.ne_of_gt above]

/-- The arrival of a key changes nothing about which node refers to which key: what waited for the
key has an edge to it now.
-/
theorem recorded_arrive {graph : Graph} (consistent : graph.Consistent) (key : Key)
    (state : StateId) (node : Nat) (other : Key)
    : (graph.arrive key state).Recorded node other ↔ graph.Recorded node other := by
  simp only [Recorded, edge_arrive_iff consistent, waits_arrive_iff, getElem?_keys_arrive]
  constructor
  · rintro (⟨dependency, here | ⟨last, same⟩, edge | ⟨waits, new⟩⟩ | ⟨waits, _⟩)
    · exact Or.inl ⟨dependency, here, edge⟩
    · have bound := (List.getElem?_eq_some_iff.mp here).1
      simp [keys, new] at bound
    · exact absurd (consistent.inside node dependency edge) (by simp [last])
    · exact Or.inr (same ▸ waits)
    · exact Or.inr waits
  · rintro (⟨dependency, here, edge⟩ | waits)
    · exact Or.inl ⟨dependency, Or.inl here, Or.inl edge⟩
    · by_cases same : other = key
      · exact Or.inl ⟨_, Or.inr ⟨rfl, same⟩, Or.inr ⟨same ▸ waits, rfl⟩⟩
      · exact Or.inr ⟨waits, same⟩

-----------------------------------------------------------------------------------------
-- References
-----------------------------------------------------------------------------------------

/-- Parking leaves the references to other keys alone and adds one to its own key. -/
theorem mem_park {parked : List (Key × List (Nat × Reading))} {key : Key}
    {reference : Nat × Reading} {entry : Key × List (Nat × Reading)}
    (member : entry ∈ park parked key reference)
    : (entry ∈ parked ∧ entry.1 ≠ key)
      ∨ ∃ waiting,
          entry = (key, waiting ++ [reference])
          ∧ ((key, waiting) ∈ parked ∨ waiting = [] ∧ parked.lookup key = none) := by
  unfold park at member
  split at member
  · obtain ⟨old, oldMember, same⟩ := List.mem_map.mp member
    split at same
    · rename_i own
      exact Or.inr ⟨old.2, same.symm, Or.inl (own ▸ oldMember)⟩
    · rename_i other
      exact Or.inl (same ▸ ⟨oldMember, other⟩)
  · rename_i missing
    rcases List.mem_append.mp member with old | new
    · exact Or.inl ⟨old, fun same => not_mem_of_lookup missing entry.2 (same ▸ old)⟩
    · exact Or.inr ⟨[], by simpa using new, Or.inr ⟨rfl, missing⟩⟩

theorem fst_park (parked : List (Key × List (Nat × Reading))) (key : Key)
    (reference : Nat × Reading)
    : (park parked key reference).map Prod.fst
      = if (parked.lookup key).isSome then parked.map Prod.fst
        else parked.map Prod.fst ++ [key] := by
  unfold park
  split
  · rename_i found
    rw [found, Option.isSome_some, if_pos rfl, List.map_map]
    refine List.map_congr_left fun entry _ => ?_
    dsimp only [Function.comp]
    split
    · rename_i own
      exact own.symm
    · rfl
  · rename_i missing
    simp [missing]

theorem mem_park_of_mem {parked : List (Key × List (Nat × Reading))} (key : Key)
    (reference : Nat × Reading) {entry : Key × List (Nat × Reading)} (member : entry ∈ parked)
    : (if entry.1 = key then (key, entry.2 ++ [reference]) else entry)
      ∈ park parked key reference := by
  unfold park
  split
  · exact List.mem_map.mpr ⟨entry, member, rfl⟩
  · rename_i missing
    have other : entry.1 ≠ key := fun same => not_mem_of_lookup missing entry.2 (same ▸ member)
    rw [if_neg other]
    exact List.mem_append_left _ member

theorem exists_mem_park (parked : List (Key × List (Nat × Reading))) (key : Key)
    (reference : Nat × Reading)
    : ∃ waiting, (key, waiting ++ [reference]) ∈ park parked key reference := by
  cases found : parked.lookup key with
  | some waiting =>
      have kept := mem_park_of_mem key reference (mem_of_lookup found)
      exact ⟨waiting, by simpa using kept⟩
  | none => exact ⟨[], by simp [park, found]⟩

/-- A node waits after parking if it waited before or if the parked reference is its own. -/
theorem exists_mem_park_iff {parked : List (Key × List (Nat × Reading))} {key : Key}
    {reference : Nat × Reading} {other : Key} {node : Nat}
    : (∃ waiting, (other, waiting) ∈ park parked key reference ∧ node ∈ waiting.map Prod.fst)
      ↔ (∃ waiting, (other, waiting) ∈ parked ∧ node ∈ waiting.map Prod.fst)
        ∨ (node = reference.1 ∧ other = key) := by
  constructor
  · rintro ⟨waiting, member, inside⟩
    rcases mem_park member with ⟨old, _⟩ | ⟨before, same, origin⟩
    · exact Or.inl ⟨waiting, old, inside⟩
    · cases same
      rw [List.map_append, List.mem_append] at inside
      rcases inside with earlier | last
      · rcases origin with old | ⟨none, _⟩
        · exact Or.inl ⟨before, old, earlier⟩
        · simp [none] at earlier
      · exact Or.inr ⟨by simpa using last, rfl⟩
  · rintro (⟨waiting, member, inside⟩ | ⟨same, own⟩)
    · have kept := mem_park_of_mem key reference member
      split at kept
      · rename_i own
        have longer : node ∈ (waiting ++ [reference]).map Prod.fst := by
          rw [List.map_append]
          exact List.mem_append_left _ inside
        exact ⟨_, own ▸ kept, longer⟩
      · exact ⟨waiting, kept, inside⟩
    · obtain ⟨waiting, member⟩ := exists_mem_park parked key reference
      exact ⟨waiting ++ [reference], by rw [own]; exact member, by simp [same]⟩

theorem refer_of_known {graph : Graph} {node : Nat} {referent : Referent} {dependency : Nat}
    (found : graph.nodeOfKey? referent.key = some dependency)
    : refer node graph referent
      = { graph with
          roots := graph.roots.erase dependency
          edges := graph.edges.addEdge node dependency referent.reading } := by
  simp only [Graph.refer, found]

theorem refer_of_new {graph : Graph} {node : Nat} {referent : Referent}
    (missing : graph.nodeOfKey? referent.key = none)
    : refer node graph referent
      = { graph with parked := park graph.parked referent.key (node, referent.reading) } := by
  simp only [Graph.refer, missing]

@[simp] theorem nodes_refer (node : Nat) (graph : Graph) (referent : Referent)
    : (refer node graph referent).nodes = graph.nodes := by
  unfold refer
  split <;> rfl

@[simp] theorem entries_refer (node : Nat) (graph : Graph) (referent : Referent)
    : (refer node graph referent).entries = graph.entries := by
  unfold refer
  split <;> rfl

/-- A reference to a key that has not arrived may be parked. -/
theorem Consistent.park {graph : Graph} (consistent : graph.Consistent) {key : Key}
    (absent : key ∉ graph.keys) {reference : Nat × Reading}
    (known : reference.1 < graph.nodes.length)
    : { graph with parked := Graph.park graph.parked key reference }.Consistent where
  distinct := consistent.distinct
  counted := consistent.counted
  inside := consistent.inside
  parkedOnce := by
    dsimp only
    rw [fst_park]
    split
    · exact consistent.parkedOnce
    · rename_i missing
      have fresh := not_mem_of_lookup (Option.not_isSome_iff_eq_none.mp missing)
      rw [← List.concat_eq_append]
      exact consistent.parkedOnce.concat (by simpa using fresh)
  parkedAbsent entry member := by
    rcases mem_park member with ⟨old, _⟩ | ⟨before, same, _⟩
    · exact consistent.parkedAbsent entry old
    · exact same ▸ absent
  parkedUsed entry member := by
    rcases mem_park member with ⟨old, _⟩ | ⟨before, same, _⟩
    · exact consistent.parkedUsed entry old
    · simp [same]
  parkedInside entry member := by
    rcases mem_park member with ⟨old, _⟩ | ⟨before, same, origin⟩
    · exact consistent.parkedInside entry old
    · rw [same]
      refine List.forall_mem_append.mpr ⟨?_, List.forall_mem_singleton.mpr known⟩
      rcases origin with old | ⟨none, _⟩
      · exact consistent.parkedInside _ old
      · simp [none]

theorem Consistent.refer {graph : Graph} (consistent : graph.Consistent) {node : Nat}
    (known : node < graph.nodes.length) (referent : Referent)
    : (Graph.refer node graph referent).Consistent := by
  have inside := consistent.inside.refer node referent
  unfold Graph.refer at inside ⊢
  split at inside <;> rename_i found
  · exact { consistent with
      counted := (Adjacency.nodeCount_addEdge _ _ _ _).trans consistent.counted
      inside := inside }
  · exact consistent.park (nodeOfKey?_eq_none_iff.mp found) known

/-- The reference of a node to a key is recorded, as an edge or as a parked reference, and nothing
else is.
-/
theorem recorded_refer {graph : Graph} (consistent : graph.Consistent) {node : Nat}
    (known : node < graph.nodes.length) (referent : Referent) (other : Nat) (key : Key)
    : (refer node graph referent).Recorded other key
      ↔ graph.Recorded other key ∨ (other = node ∧ key = referent.key) := by
  unfold Recorded
  rw [keys, nodes_refer, ← keys]
  unfold refer
  cases found : graph.nodeOfKey? referent.key with
  | some dependency =>
      have here := getElem?_of_nodeOfKey? found
      have edge : ∀ target,
          target ∈ (graph.edges.addEdge node dependency referent.reading).next other
          ↔ graph.Edge other target ∨ (other = node ∧ target = dependency) :=
        Adjacency.mem_next_addEdge (consistent.counted ▸ known) _ _ _
      simp only [Edge, Waits, edge]
      constructor
      · rintro (⟨target, place, old | ⟨same, rfl⟩⟩ | waits)
        · exact Or.inl (Or.inl ⟨target, place, old⟩)
        · exact Or.inr ⟨same, Option.some.inj (place.symm.trans here)⟩
        · exact Or.inl (Or.inr waits)
      · rintro ((⟨target, place, old⟩ | waits) | ⟨same, rfl⟩)
        · exact Or.inl ⟨target, place, Or.inl old⟩
        · exact Or.inr waits
        · exact Or.inl ⟨dependency, here, Or.inr ⟨same, rfl⟩⟩
  | none =>
      simp only [Edge, Waits, exists_mem_park_iff, or_assoc]

/-- Referents are recorded one after the other, by induction on them. Nodes and entries stay. -/
theorem foldl_refer_spec {graph : Graph} (consistent : graph.Consistent) {node : Nat}
    (known : node < graph.nodes.length) (live : List Referent)
    : (live.foldl (refer node) graph).Consistent
      ∧ (live.foldl (refer node) graph).nodes = graph.nodes
      ∧ (live.foldl (refer node) graph).entries = graph.entries
      ∧ ∀ other key,
          (live.foldl (refer node) graph).Recorded other key
          ↔ graph.Recorded other key ∨ (other = node ∧ ∃ referent ∈ live, key = referent.key) := by
  induction live generalizing graph with
  | nil => simpa using consistent
  | cons referent rest ih =>
      obtain ⟨kept, nodes, entries, recorded⟩ :=
        ih (consistent.refer known referent) (by simpa using known)
      rw [nodes_refer] at nodes
      rw [entries_refer] at entries
      refine ⟨kept, nodes, entries, fun other key => ?_⟩
      rw [List.foldl_cons, recorded, recorded_refer consistent known, or_assoc, ← and_or_left]
      simp

/-- Connecting a node records exactly the keys of the referents that are not its own. -/
theorem connect_spec {graph : Graph} (consistent : graph.Consistent) {node : Nat}
    (known : node < graph.nodes.length) (state : State) (referents : List Referent)
    : (graph.connect node state referents).Consistent
      ∧ (graph.connect node state referents).nodes = graph.nodes
      ∧ (graph.connect node state referents).entries = graph.entries
      ∧ ∀ other key,
          (graph.connect node state referents).Recorded other key
          ↔ graph.Recorded other key
            ∨ (other = node
              ∧ ∃ referent ∈ referents, isOwn state referent = false ∧ key = referent.key) := by
  obtain ⟨kept, nodes, entries, recorded⟩ := foldl_refer_spec consistent known
    (referents.filter fun referent => !isOwn state referent)
  refine ⟨kept, nodes, entries, fun other key => (recorded other key).trans ?_⟩
  simp only [List.mem_filter, Bool.not_eq_true', and_assoc]

-----------------------------------------------------------------------------------------
-- What does not touch the wiring
-----------------------------------------------------------------------------------------

/-- Two graphs have the same keys, edges and parked references. -/
structure SameWiring (graph other : Graph) : Prop where
  keys : other.keys = graph.keys
  edges : other.edges = graph.edges
  parked : other.parked = graph.parked

theorem SameWiring.consistent {graph other : Graph} (same : graph.SameWiring other)
    (consistent : graph.Consistent)
    : other.Consistent := by
  have length : other.nodes.length = graph.nodes.length := by
    simpa [Graph.keys] using congrArg List.length same.keys
  refine {
    distinct := same.keys ▸ consistent.distinct
    counted := by rw [same.edges, length, consistent.counted]
    inside := ?_
    parkedOnce := same.parked ▸ consistent.parkedOnce
    parkedAbsent := same.parked ▸ same.keys ▸ consistent.parkedAbsent
    parkedUsed := same.parked ▸ consistent.parkedUsed
    parkedInside := same.parked ▸ length ▸ consistent.parkedInside
  }
  rw [EdgesInside, same.edges, length]
  exact consistent.inside

theorem SameWiring.recorded_iff {graph other : Graph} (same : graph.SameWiring other)
    (node : Nat) (key : Key)
    : other.Recorded node key ↔ graph.Recorded node key := by
  simp only [Recorded, Edge, Waits, same.keys, same.edges, same.parked]

theorem map_key_modify (nodes : List Node) (position : Nat) (change : Node → Node)
    (same : ∀ node, (change node).key = node.key)
    : (nodes.modify position change).map Node.key = nodes.map Node.key := by
  refine List.ext_getElem? fun other => ?_
  rw [List.getElem?_map, List.getElem?_map, List.getElem?_modify]
  cases nodes[other]? with
  | none => rfl
  | some node =>
      by_cases here : position = other
      · simp [here, same]
      · simp [here]

end Graph

end StepPlan
