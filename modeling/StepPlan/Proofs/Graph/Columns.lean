import Mathlib.Logic.Function.Basic
import StepPlan.Graph.Columns
import StepPlan.Proofs.Graph.Representation

/-! Edges in columns hold the same lists. An edge leads on to an edge with a smaller number or to
the end, so every list ends. Adding an edge writes behind the columns and in one place at the front,
so the lists of other nodes and the rest of the list are as before. The numbers suffice as long as
no edge gets the number that ends a list.
-/

namespace StepPlan

namespace Chains

variable {α : Type} {chains : Chains α} {bound steps node count : Nat} {edge : UInt32}
  {items : List α} {list : Nat → List α}

-----------------------------------------------------------------------------------------
-- Following a list
-----------------------------------------------------------------------------------------

/-- (chains.Follows bound edge items) means that the list that starts with the edge has these items,
and that the numbers of its edges descend from below the bound.
-/
inductive Follows (chains : Chains α) : Nat → UInt32 → List α → Prop
  | done {bound : Nat} : Follows chains bound stop []
  | step {bound : Nat} {edge after : UInt32} {entry : α} {rest : List α}
      (below : edge.toNat < bound) (listed : chains.entries[edge.toNat]? = some entry)
      (linked : chains.next[edge.toNat]? = some after)
      (later : Follows chains edge.toNat after rest)
      : Follows chains bound edge (entry :: rest)

theorem Follows.mono (follows : chains.Follows bound edge items) {larger : Nat}
    (more : bound ≤ larger)
    : chains.Follows larger edge items := by
  cases follows with
  | done => exact .done
  | step below listed linked later =>
      exact .step (Nat.lt_of_lt_of_le below more) listed linked later

/-- A list stays as it is when the columns grow. -/
theorem Follows.grow (follows : chains.Follows bound edge items) {other : Chains α}
    (entries : chains.entries <+: other.entries) (next : chains.next <+: other.next)
    : other.Follows bound edge items := by
  induction follows with
  | done => exact .done
  | step below listed linked _ ih =>
      obtain ⟨entryKnown, rfl⟩ := List.getElem?_eq_some_iff.mp listed
      obtain ⟨nextKnown, rfl⟩ := List.getElem?_eq_some_iff.mp linked
      exact .step below (List.prefix_iff_getElem?.mp entries _ entryKnown)
        (List.prefix_iff_getElem?.mp next _ nextKnown) ih

/-- Following ends after as many steps as the bound allows, if no edge below the bound is taken for
the end. Induction on the list.
-/
theorem Follows.follow_eq (follows : chains.Follows bound edge items)
    (small : bound ≤ stop.toNat) (enough : bound ≤ steps)
    : chains.follow steps edge = some items := by
  induction follows generalizing steps with
  | done => cases steps <;> simp [follow]
  | @step bound edge after entry rest below listed linked _ ih =>
      have named : edge ≠ stop := by
        rintro rfl
        exact Nat.lt_irrefl _ (Nat.lt_of_lt_of_le below small)
      obtain ⟨steps, rfl⟩ : ∃ fewer, steps = fewer + 1 :=
        ⟨steps - 1, by omega⟩
      have onward := @ih steps (by omega) (by omega)
      simp [follow, named, listed, linked, onward]

-----------------------------------------------------------------------------------------
-- The lists of all nodes
-----------------------------------------------------------------------------------------

/-- (chains.Lists count list) means that the columns hold these lists for so many nodes. -/
structure Lists (chains : Chains α) (count : Nat) (list : Nat → List α) : Prop where
  columns : chains.next.length = chains.entries.length
  nodes : chains.first.length = count
  follows
    : ∀ node < count,
        ∃ edge,
          chains.first[node]? = some edge
          ∧ chains.Follows chains.entries.length edge (list node)

theorem lists_empty (list : Nat → List α) : empty.Lists 0 list :=
  ⟨rfl, rfl, nofun⟩

theorem Lists.list?_eq (lists : chains.Lists count list)
    (small : chains.entries.length ≤ stop.toNat) (known : node < count)
    : chains.list? node = some (list node) := by
  obtain ⟨edge, front, follows⟩ := lists.follows node known
  rw [list?, front, Option.bind_some, follows.follow_eq small (Nat.le_refl _)]

/-- A node that is appended has an empty list. -/
theorem Lists.addNode (lists : chains.Lists count list) (fresh : list count = [])
    : chains.addNode.Lists (count + 1) list where
  columns := lists.columns
  nodes := by simp [Chains.addNode, lists.nodes]
  follows node known := by
    rcases Nat.lt_succ_iff_lt_or_eq.mp known with earlier | rfl
    · obtain ⟨edge, front, follows⟩ := lists.follows node earlier
      refine ⟨edge, ?_, follows.grow List.prefix_rfl List.prefix_rfl⟩
      exact (List.getElem?_append_left (lists.nodes ▸ earlier)).trans front
    · refine ⟨stop, ?_, fresh ▸ .done⟩
      simp [Chains.addNode, ← lists.nodes]

/-- An entry is put in front of the list of its node, and the other lists stay. -/
theorem Lists.insert (lists : chains.Lists count list) (known : node < count)
    (small : chains.entries.length < stop.toNat) (entry : α)
    : (chains.insert node entry).Lists count (Function.update list node (entry :: list node)) where
  columns := by simp [Chains.insert, lists.columns]
  nodes := by simp [Chains.insert, lists.nodes]
  follows other otherKnown := by
    obtain ⟨edge, front, follows⟩ := lists.follows other otherKnown
    have kept : (chains.insert node entry).Follows chains.entries.length edge (list other) :=
      follows.grow (List.prefix_append _ _) (List.prefix_append _ _)
    by_cases same : other = node
    · subst other
      have number : (UInt32.ofNat chains.entries.length).toNat = chains.entries.length :=
        UInt32.toNat_ofNat_of_lt' (Nat.lt_trans small stop.toNat_lt)
      refine ⟨UInt32.ofNat chains.entries.length, ?_, ?_⟩
      · simp [Chains.insert, lists.nodes, known]
      · rw [Function.update_self]
        refine .step ?_ ?_ ?_ (number.symm ▸ kept)
        · simp [Chains.insert, number]
        · simp [Chains.insert, number]
        · rw [number, ← lists.columns]
          simp [Chains.insert, front]
    · refine ⟨edge, ?_, ?_⟩
      · simp [Chains.insert, Ne.symm same, front]
      · rw [Function.update_of_ne same]
        exact kept.mono (by simp [Chains.insert])

end Chains

-----------------------------------------------------------------------------------------
-- Counting edges
-----------------------------------------------------------------------------------------

/-- A change of one item by so much changes the total by so much, by induction on the items. -/
theorem total_modify {α : Type} (weight : α → Nat) (change : α → α) {extra : Nat}
    (grows : ∀ item, weight (change item) = weight item + extra) {items : List α} {place : Nat}
    (known : place < items.length)
    : total weight (items.modify place change) = total weight items + extra := by
  induction items generalizing place with
  | nil => simp at known
  | cons item rest ih =>
      cases place with
      | zero =>
          simp only [List.modify_zero_cons, total, grows]
          omega
      | succ place =>
          have later := ih (Nat.lt_of_succ_lt_succ known)
          simp only [List.modify_succ_cons, total, later]
          omega

namespace Adjacency

variable {edges : Adjacency} {node dependency : Nat}

theorem edgeCount_link (originKnown : node < edges.nodeCount) (known : dependency < edges.nodeCount)
    (reading : Reading)
    : (edges.link node dependency reading).edgeCount = edges.edgeCount + 1 := by
  have forward := total_modify (fun links : Links => links.dependencies.length)
    (fun links => { links with dependencies := (dependency, reading) :: links.dependencies })
    (fun _ => List.length_cons) originKnown
  refine Eq.trans ?_ forward
  exact total_modify (fun links : Links => links.dependencies.length)
    (fun links => { links with dependents := node :: links.dependents })
    (fun _ => (Nat.add_zero _).symm) (by rw [List.length_modify]; exact known)

@[simp] theorem edgeCount_addNode (edges : Adjacency)
    : edges.addNode.edgeCount = edges.edgeCount := by
  simp [edgeCount, addNode, total_append, total]

theorem linksAt_of_nodeCount_le (outside : edges.nodeCount ≤ node)
    : edges.linksAt node = ⟨[], []⟩ := by
  rw [linksAt, List.getElem?_eq_none outside]
  rfl

/-- The dependencies of a node after an edge is listed. -/
theorem dependencies_link (edges : Adjacency) (node dependency : Nat) (reading : Reading)
    (other : Nat)
    : (edges.link node dependency reading).dependencies other
      = if node = other ∧ other < edges.nodeCount then
          (dependency, reading) :: edges.dependencies other
        else edges.dependencies other := by
  rw [dependencies, linksAt_link]

theorem dependents_link (edges : Adjacency) (node dependency : Nat) (reading : Reading)
    (other : Nat)
    : (edges.link node dependency reading).dependents other
      = if dependency = other ∧ other < edges.nodeCount then node :: edges.dependents other
        else edges.dependents other := by
  rw [dependents, linksAt_link]

theorem hasEdge_iff_mem : edges.hasEdge node dependency = true ↔ dependency ∈ edges.next node :=
  List.contains_iff_mem

theorem addEdge_of_mem (present : dependency ∈ edges.next node) (reading : Reading)
    : edges.addEdge node dependency reading = edges := by
  simp [addEdge, insertEdge?, hasEdge, present]

theorem addEdge_of_not_mem (fresh : dependency ∉ edges.next node) (reading : Reading)
    : edges.addEdge node dependency reading = edges.link node dependency reading := by
  simp [addEdge, insertEdge?, hasEdge, fresh]

/-- Only nodes that exist have dependencies. -/
theorem origin_lt (member : dependency ∈ edges.next node) : node < edges.nodeCount := by
  by_contra outside
  simp [next, dependencies, linksAt_of_nodeCount_le (Nat.le_of_not_lt outside)] at member

/-- Only nodes that exist have dependents. -/
theorem target_lt (member : node ∈ edges.dependents dependency)
    : dependency < edges.nodeCount := by
  by_contra outside
  simp [dependents, linksAt_of_nodeCount_le (Nat.le_of_not_lt outside)] at member

end Adjacency

-----------------------------------------------------------------------------------------
-- Both ends of every edge
-----------------------------------------------------------------------------------------

namespace EdgeColumns

variable {columns : EdgeColumns} {edges : Adjacency} {node dependency : Nat}

theorem eq_ofNat_iff {number : UInt32} {node : Nat} (small : node < UInt32.size)
    : number = UInt32.ofNat node ↔ number.toNat = node := by
  rw [← UInt32.toNat_inj, UInt32.toNat_ofNat_of_lt' small]

/-- The dependencies of a node, in numbers. -/
def numberedDependencies (edges : Adjacency) (node : Nat) : List (UInt32 × Reading) :=
  (edges.dependencies node).map fun entry => (UInt32.ofNat entry.1, entry.2)

/-- The dependents of a node, in numbers. -/
def numberedDependents (edges : Adjacency) (node : Nat) : List UInt32 :=
  (edges.dependents node).map UInt32.ofNat

/-- (columns.Holds edges) means that the columns hold the lists at both ends of every edge, and the
set of edges.
-/
structure Holds (columns : EdgeColumns) (edges : Adjacency) : Prop where
  forward : columns.forward.Lists edges.nodeCount (numberedDependencies edges)
  backward : columns.backward.Lists edges.nodeCount (numberedDependents edges)
  forwardCount : columns.forward.entries.length = edges.edgeCount
  backwardCount : columns.backward.entries.length = edges.edgeCount
  known
    : ∀ origin target : UInt32,
        (origin, target) ∈ columns.known ↔ target.toNat ∈ edges.next origin.toNat

theorem holds_empty : empty.Holds .empty where
  forward := Chains.lists_empty _
  backward := Chains.lists_empty _
  forwardCount := rfl
  backwardCount := rfl
  known _ _ := by simp [empty, Adjacency.empty, Adjacency.next, Adjacency.dependencies,
    Adjacency.linksAt]

theorem Holds.addNode (holds : columns.Holds edges) : columns.addNode.Holds edges.addNode := by
  have dependencies : numberedDependencies edges.addNode = numberedDependencies edges := by
    funext node
    simp [numberedDependencies, Adjacency.dependencies]
  have dependents : numberedDependents edges.addNode = numberedDependents edges := by
    funext node
    simp [numberedDependents, Adjacency.dependents]
  refine ⟨?_, ?_, ?_, ?_, ?_⟩
  · rw [dependencies, Adjacency.nodeCount_addNode]
    apply holds.forward.addNode
    simp [numberedDependencies, Adjacency.dependencies, Adjacency.linksAt_of_nodeCount_le]
  · rw [dependents, Adjacency.nodeCount_addNode]
    apply holds.backward.addNode
    simp [numberedDependents, Adjacency.dependents, Adjacency.linksAt_of_nodeCount_le]
  · rw [Adjacency.edgeCount_addNode]
    exact holds.forwardCount
  · rw [Adjacency.edgeCount_addNode]
    exact holds.backwardCount
  · intro origin target
    rw [Adjacency.next_addNode]
    exact holds.known origin target

/-- Listing an edge at both ends does the same in columns, as long as there is a number for it. -/
theorem Holds.link (holds : columns.Holds edges) (originKnown : node < edges.nodeCount)
    (known : dependency < edges.nodeCount) (nodesSmall : edges.nodeCount ≤ UInt32.size)
    (edgesSmall : edges.edgeCount < Chains.stop.toNat) (reading : Reading)
    : (columns.link node dependency reading).Holds (edges.link node dependency reading) := by
  have nodeCount : (edges.link node dependency reading).nodeCount = edges.nodeCount := by
    simp [Adjacency.nodeCount, Adjacency.link]
  have counted := Adjacency.edgeCount_link originKnown known reading
  refine ⟨?_, ?_, ?_, ?_, ?_⟩
  · have longer : numberedDependencies (edges.link node dependency reading)
        = Function.update (numberedDependencies edges) node
          ((UInt32.ofNat dependency, reading) :: numberedDependencies edges node) := by
      funext other
      by_cases same : other = node
      · subst other
        simp [numberedDependencies, Adjacency.dependencies_link, originKnown]
      · simp [numberedDependencies, Adjacency.dependencies_link, same, Ne.symm same]
    rw [nodeCount, longer]
    exact holds.forward.insert originKnown (holds.forwardCount ▸ edgesSmall) _
  · have longer : numberedDependents (edges.link node dependency reading)
        = Function.update (numberedDependents edges) dependency
          (UInt32.ofNat node :: numberedDependents edges dependency) := by
      funext other
      by_cases same : other = dependency
      · subst other
        simp [numberedDependents, Adjacency.dependents_link, known]
      · simp [numberedDependents, Adjacency.dependents_link, same, Ne.symm same]
    rw [nodeCount, longer]
    exact holds.backward.insert known (holds.backwardCount ▸ edgesSmall) _
  · rw [counted, ← holds.forwardCount]
    exact List.length_append
  · rw [counted, ← holds.backwardCount]
    exact List.length_append
  · intro origin target
    have nodeSmall := Nat.lt_of_lt_of_le originKnown nodesSmall
    have dependencySmall := Nat.lt_of_lt_of_le known nodesSmall
    rw [Adjacency.next_link, EdgeColumns.link, List.mem_cons, Prod.mk.injEq, holds.known,
      eq_ofNat_iff nodeSmall, eq_ofNat_iff dependencySmall]
    by_cases same : origin.toNat = node
    · simp [same, originKnown]
    · simp [same, Ne.symm same]

theorem Holds.hasEdge_eq (holds : columns.Holds edges) (nodeSmall : node < UInt32.size)
    (dependencySmall : dependency < UInt32.size)
    : columns.hasEdge node dependency = edges.hasEdge node dependency := by
  rw [Bool.eq_iff_iff, hasEdge, Adjacency.hasEdge, List.contains_iff_mem, List.contains_iff_mem,
    holds.known, UInt32.toNat_ofNat_of_lt' nodeSmall, UInt32.toNat_ofNat_of_lt' dependencySmall]

/-- A new edge is new in columns too. -/
theorem Holds.insertEdge_fst (holds : columns.Holds edges) (nodeSmall : node < UInt32.size)
    (dependencySmall : dependency < UInt32.size) (reading : Reading)
    : (columns.insertEdge node dependency reading).1
      = (edges.insertEdge? node dependency reading).isSome := by
  rw [EdgeColumns.insertEdge, holds.hasEdge_eq nodeSmall dependencySmall, Adjacency.insertEdge?]
  split <;> rfl

/-- Adding an edge does the same in columns, as long as there are numbers for the edges. -/
theorem Holds.insertEdge_snd (holds : columns.Holds edges) (originKnown : node < edges.nodeCount)
    (known : dependency < edges.nodeCount) (nodesSmall : edges.nodeCount ≤ UInt32.size)
    (reading : Reading)
    (edgesSmall : (edges.addEdge node dependency reading).edgeCount ≤ Chains.stop.toNat)
    : (columns.insertEdge node dependency reading).2.Holds
        (edges.addEdge node dependency reading) := by
  rw [EdgeColumns.insertEdge, holds.hasEdge_eq (Nat.lt_of_lt_of_le originKnown nodesSmall)
    (Nat.lt_of_lt_of_le known nodesSmall)]
  by_cases present : dependency ∈ edges.next node
  · rw [Adjacency.addEdge_of_mem present, if_pos (Adjacency.hasEdge_iff_mem.mpr present)]
    exact holds
  · rw [Adjacency.addEdge_of_not_mem present, Adjacency.edgeCount_link originKnown known]
      at edgesSmall
    rw [Adjacency.addEdge_of_not_mem present,
      if_neg fun found => present (Adjacency.hasEdge_iff_mem.mp found)]
    exact holds.link originKnown known nodesSmall edgesSmall reading

-----------------------------------------------------------------------------------------
-- Answers
-----------------------------------------------------------------------------------------

/-- (columns.Agrees edges) means that every walk over the columns ends and that all answers are the
same.
-/
structure Agrees (columns : EdgeColumns) (edges : Adjacency) : Prop where
  dependencies
    : ∀ node < edges.nodeCount, columns.dependencies? node = some (edges.dependencies node)
  dependents : ∀ node < edges.nodeCount, columns.dependents? node = some (edges.dependents node)
  hasEdge
    : ∀ node < UInt32.size, ∀ dependency < UInt32.size,
        columns.hasEdge node dependency = edges.hasEdge node dependency
  edgeCount : columns.edgeCount = edges.edgeCount
  isNew
    : ∀ node < UInt32.size, ∀ dependency < UInt32.size, ∀ reading,
        (columns.insertEdge node dependency reading).1
          = (edges.insertEdge? node dependency reading).isSome

/-- Numbers that are small enough are read as they were written. -/
theorem map_map_eq_self {α β : Type} {read : β → α} {write : α → β} {entries : List α}
    (same : ∀ entry ∈ entries, read (write entry) = entry)
    : (entries.map write).map read = entries := by
  rw [List.map_map]
  exact (List.map_congr_left same).trans (List.map_id entries)

/-- Columns that hold edges give their answers, while all nodes and edges have numbers. -/
theorem Holds.agrees (holds : columns.Holds edges) (mirrored : edges.Mirrored)
    (nodesSmall : edges.nodeCount ≤ UInt32.size)
    (edgesSmall : edges.edgeCount ≤ Chains.stop.toNat)
    : columns.Agrees edges where
  dependencies := by
    intro node known
    have listed := holds.forward.list?_eq (holds.forwardCount ▸ edgesSmall) known
    rw [dependencies?, listed, Option.map_some, numberedDependencies, map_map_eq_self]
    intro entry member
    have small := Adjacency.target_lt ((mirrored node entry.1).mpr (List.mem_map_of_mem member))
    rw [UInt32.toNat_ofNat_of_lt' (Nat.lt_of_lt_of_le small nodesSmall)]
  dependents := by
    intro node known
    have listed := holds.backward.list?_eq (holds.backwardCount ▸ edgesSmall) known
    rw [dependents?, listed, Option.map_some, numberedDependents, map_map_eq_self]
    intro user member
    have small := Adjacency.origin_lt ((mirrored user node).mp member)
    exact UInt32.toNat_ofNat_of_lt' (Nat.lt_of_lt_of_le small nodesSmall)
  hasEdge _ nodeSmall _ dependencySmall := holds.hasEdge_eq nodeSmall dependencySmall
  edgeCount := holds.forwardCount
  isNew _ nodeSmall _ dependencySmall reading :=
    holds.insertEdge_fst nodeSmall dependencySmall reading

end EdgeColumns

end StepPlan
