import Mathlib.Data.List.Nodup
import Mathlib.Data.List.Pairwise
import Mathlib.Data.List.Perm.Basic
import Mathlib.Order.Bounds.Defs
import StepPlan.Mining

/-! The clusters that a search selects are apart. First fit takes a cluster only if it has no state
in common with those taken before, and the selection keeps the order of the candidates. Numbering
sorts what was selected by first states, which then ascend strictly. There are no more positions
than states, so every cluster is named by its position.
-/

namespace StepPlan

-----------------------------------------------------------------------------------------
-- First fit
-----------------------------------------------------------------------------------------

/-- Clusters without a common state. -/
def Cluster.Apart (first second : Cluster) : Prop :=
  List.Disjoint first.states second.states

theorem Cluster.Apart.symm {first second : Cluster} (apart : first.Apart second)
    : second.Apart first := by
  intro state member otherMember
  exact apart otherMember member

theorem Cluster.sharesMember_eq_false_iff {first second : Cluster}
    : first.sharesMember second = false ↔ first.Apart second := by
  simp only [sharesMember, contains, List.any_eq_false, List.contains_eq_mem, decide_eq_true_eq]
  rfl

namespace Mining

theorem fits_iff {chosen : List Cluster} {cluster : Cluster}
    : fits chosen cluster = true ↔ ∀ other ∈ chosen, other.Apart cluster := by
  simp only [fits, List.all_eq_true, Bool.not_eq_true', Cluster.sharesMember_eq_false_iff]

/-- First fit takes clusters that are apart, by induction on the clusters to come. -/
theorem apart_firstFit {seed : Nat} {coming chosen : List (Cluster × Nat)}
    (apart : chosen.Pairwise fun one other => one.1.Apart other.1)
    : (firstFit seed coming chosen).Pairwise fun one other => one.1.Apart other.1 := by
  induction coming generalizing chosen with
  | nil => exact apart
  | cons entry rest ih =>
      unfold firstFit
      split
      · rename_i fit
        refine ih (List.pairwise_append.mpr ⟨apart, List.pairwise_singleton _ _, ?_⟩)
        intro other member last same
        rw [List.mem_singleton.mp same]
        exact fits_iff.mp fit.2 _ (List.mem_map_of_mem member)
      · exact ih apart

/-- First fit adds some of the clusters to come, and none at the position of the seed. -/
theorem firstFit_sublist (seed : Nat) (coming chosen : List (Cluster × Nat))
    : (firstFit seed coming chosen).Sublist
        (chosen ++ coming.filter fun entry => entry.2 ≠ seed) := by
  induction coming generalizing chosen with
  | nil => simp [firstFit]
  | cons entry rest ih =>
      unfold firstFit
      split
      · rename_i fit
        simpa [fit.1] using ih (chosen ++ [entry])
      · exact (ih chosen).trans (((List.sublist_cons_self entry rest).filter _).append_left chosen)

theorem cheapest_mem (cost : List (Cluster × Nat) → Nat)
    {alternatives : List (List (Cluster × Nat))} (nonempty : alternatives ≠ [])
    : cheapest cost alternatives ∈ alternatives := by
  cases alternatives with
  | nil => exact absurd rfl nonempty
  | cons first rest =>
      refine List.foldlRecOn rest _ List.mem_cons_self ?_
      intro best member next nextMember
      split
      · exact List.mem_cons_of_mem _ nextMember
      · exact member

/-- No alternative costs less than the one that is kept, by induction on the others. -/
theorem cheapest_le (cost : List (Cluster × Nat) → Nat)
    {alternatives : List (List (Cluster × Nat))} {alternative : List (Cluster × Nat)}
    (member : alternative ∈ alternatives)
    : cost (cheapest cost alternatives) ≤ cost alternative := by
  cases alternatives with
  | nil => nomatch member
  | cons first rest =>
      rw [cheapest]
      induction rest generalizing first alternative with
      | nil =>
          cases List.mem_singleton.mp member
          exact Nat.le_refl _
      | cons next rest ih =>
          rw [List.foldl_cons]
          have better : cost (if cost next < cost first then next else first) ≤ cost first
              ∧ cost (if cost next < cost first then next else first) ≤ cost next := by
            split <;> omega
          have kept := ih (if cost next < cost first then next else first) List.mem_cons_self
          rcases List.mem_cons.mp member with rfl | later
          · exact Nat.le_trans kept better.1
          · rcases List.mem_cons.mp later with rfl | later
            · exact Nat.le_trans kept better.2
            · exact ih _ (List.mem_cons_of_mem _ later)

variable {inline : StateId → Nat} {viable : List Cluster}

theorem select_sublist : (select inline viable).Sublist viable := by
  have part : (select inline viable).Sublist (viable.zipIdx.map Prod.fst) :=
    List.filter_sublist.map Prod.fst
  simpa using part

/-- Every cluster stands at one of the positions or at another one. -/
theorem countOthers_add_length (positions : List Nat) (viable : List Cluster)
    : countOthers positions viable + (atPositions positions viable).length = viable.length := by
  rw [countOthers, atPositions, List.length_map, ← List.countP_eq_length_filter, Nat.add_comm]
  have divided := List.length_eq_countP_add_countP (l := viable.zipIdx)
    fun entry => positions.contains entry.2
  simpa using divided.symm

theorem eq_of_position {first second : Cluster × Nat} (member : first ∈ viable.zipIdx)
    (otherMember : second ∈ viable.zipIdx) (same : first.2 = second.2)
    : first = second := by
  rw [List.mem_zipIdx_iff_getElem?] at member otherMember
  rw [same, otherMember] at member
  exact Prod.ext (Option.some.inj member).symm same

/-- A pass takes different candidates, which its positions pick out again. -/
theorem perm_firstFit {seed : Cluster × Nat} (member : seed ∈ viable.zipIdx)
    : (viable.zipIdx.filter fun entry =>
        ((firstFit seed.2 viable.zipIdx [seed]).map Prod.snd).contains entry.2).Perm
        (firstFit seed.2 viable.zipIdx [seed]) := by
  have part := firstFit_sublist seed.2 viable.zipIdx [seed]
  have distinct : viable.zipIdx.Nodup :=
    List.Nodup.of_map Prod.snd (List.zipIdx_map_snd 0 viable ▸ List.nodup_range')
  have passDistinct : (firstFit seed.2 viable.zipIdx [seed]).Nodup := by
    refine List.Nodup.sublist part (List.nodup_cons.mpr ⟨?_, distinct.filter _⟩)
    simp
  have inside : ∀ entry ∈ firstFit seed.2 viable.zipIdx [seed], entry ∈ viable.zipIdx := by
    intro entry taken
    rcases List.mem_append.mp (part.subset taken) with first | later
    · exact List.mem_singleton.mp first ▸ member
    · exact (List.mem_filter.mp later).1
  refine (List.perm_ext_iff_of_nodup (distinct.filter _) passDistinct).mpr ?_
  intro entry
  rw [List.mem_filter, List.contains_iff_mem]
  constructor
  · intro listed
    obtain ⟨found, taken, same⟩ := List.mem_map.mp listed.2
    rw [← eq_of_position (inside found taken) listed.1 same]
    exact taken
  · intro taken
    exact ⟨inside entry taken, List.mem_map_of_mem taken⟩

/-- A selection takes the clusters of one first-fit pass, and no pass is cheaper. -/
theorem exists_pass (inline : StateId → Nat) (nonempty : viable ≠ [])
    : ∃ seed ∈ viable.zipIdx,
        (select inline viable).Perm ((firstFit seed.2 viable.zipIdx [seed]).map Prod.fst)
        ∧ ∀ other ∈ viable.zipIdx,
            selectionCost inline viable ((firstFit seed.2 viable.zipIdx [seed]).map Prod.fst)
            ≤ selectionCost inline viable
                ((firstFit other.2 viable.zipIdx [other]).map Prod.fst) := by
  have some : (viable.zipIdx.map fun seed => firstFit seed.2 viable.zipIdx [seed]) ≠ [] := by
    simpa using nonempty
  let cost (chosen : List (Cluster × Nat)) : Nat :=
    selectionCost inline viable (chosen.map Prod.fst)
  obtain ⟨seed, member, same⟩ := List.mem_map.mp (cheapest_mem cost some)
  refine ⟨seed, member, ?_, ?_⟩
  · have picked := (perm_firstFit member).map Prod.fst
    rw [same] at picked ⊢
    exact picked
  · intro other otherMember
    rw [same]
    exact cheapest_le cost (List.mem_map_of_mem otherMember)

/-- Selected clusters are apart, because they come from one pass. -/
theorem apart_select : (select inline viable).Pairwise Cluster.Apart := by
  by_cases empty : viable = []
  · subst viable
    exact .nil
  · obtain ⟨seed, _, perm, _⟩ := exists_pass inline empty
    refine (perm.pairwise_iff fun apart => Cluster.Apart.symm apart).mpr ?_
    exact List.pairwise_map.mpr (apart_firstFit (List.pairwise_singleton _ _))

-----------------------------------------------------------------------------------------
-- Numbering
-----------------------------------------------------------------------------------------

/-- Sorting by a comparison leaves no item before a smaller one. -/
theorem pairwise_mergeSort_isLE {α : Type} (comparison : α → α → Ordering)
    [Std.TransCmp comparison] (items : List α)
    : (items.mergeSort fun first second => (comparison first second).isLE).Pairwise
        fun first second => (comparison first second).isLE = true := by
  apply List.pairwise_mergeSort
  · intro first second third
    exact Std.TransCmp.isLE_trans
  · intro first second
    have swapped : comparison second first = (comparison first second).swap :=
      Std.OrientedCmp.eq_swap
    rw [swapped]
    cases comparison first second <;> rfl

/-- The first state of one cluster is smaller than the first state of another. -/
def Precedes (first second : Cluster) : Prop :=
  ∃ one other,
    first.states.head? = some one ∧ second.states.head? = some other ∧ one < other

/-- Sorting by first states, which differ, leaves no cluster before one with a smaller first state.
-/
theorem precedes_mergeSort {selected : List Cluster}
    (inhabited : ∀ cluster ∈ selected, cluster.states ≠ [])
    (apart : selected.Pairwise Cluster.Apart)
    : (selected.mergeSort fun one other =>
        (compare (one.states.head?.map Ident.index)
          (other.states.head?.map Ident.index)).isLE).Pairwise
        fun one other => Precedes one other ∧ one.Apart other := by
  let first (cluster : Cluster) : Option Nat := cluster.states.head?.map Ident.index
  have sorted := pairwise_mergeSort_isLE (compareOn first) selected
  have perm := List.mergeSort_perm selected
    fun one other => (compareOn first one other).isLE
  have sortedApart := (perm.pairwise_iff fun apart => Cluster.Apart.symm apart).mpr apart
  refine List.Pairwise.imp_of_mem ?_ (sorted.and sortedApart)
  intro one other member otherMember ⟨le, different⟩
  have nonempty := inhabited one (perm.mem_iff.mp member)
  have otherNonempty := inhabited other (perm.mem_iff.mp otherMember)
  obtain ⟨state, rest, here⟩ := List.exists_cons_of_ne_nil nonempty
  obtain ⟨otherState, otherRest, there⟩ := List.exists_cons_of_ne_nil otherNonempty
  refine ⟨⟨state, otherState, by simp [here], by simp [there], ?_⟩, different⟩
  simp only [compareOn, first, here, there, List.head?_cons, Option.map_some] at le
  refine Nat.lt_of_le_of_ne (Nat.isLE_compare.mp le) fun same => ?_
  rw [Ident.index_inj.mp same] at here
  exact different (here ▸ List.mem_cons_self) (there ▸ List.mem_cons_self)

/-- There is a state for each earlier cluster below the first state of a cluster, by induction on
the position.
-/
theorem position_le {sorted : List Cluster} (ordered : sorted.Pairwise Precedes) {position : Nat}
    {cluster : Cluster} (here : sorted[position]? = some cluster) {state : StateId}
    (first : cluster.states.head? = some state)
    : position ≤ state.index := by
  induction position generalizing cluster state with
  | zero => exact Nat.zero_le _
  | succ position ih =>
      obtain ⟨bound, rfl⟩ := List.getElem?_eq_some_iff.mp here
      have earlier : position < sorted.length := Nat.lt_of_succ_lt bound
      obtain ⟨one, other, oneFirst, otherFirst, less⟩ :=
        List.pairwise_iff_getElem.mp ordered position (position + 1) earlier bound
          (Nat.lt_succ_self _)
      cases first.symm.trans otherFirst
      exact Nat.lt_of_le_of_lt (ih (List.getElem?_eq_getElem earlier) oneFirst) less

/-- Numbered clusters are ordered by their first states and named by their positions. A name has
room for as many positions as there are states.
-/
theorem number_spec {selected : List Cluster}
    (inhabited : ∀ cluster ∈ selected, cluster.states ≠ [])
    (apart : selected.Pairwise Cluster.Apart)
    : (number selected).Pairwise (fun one other => Precedes one other ∧ one.Apart other)
      ∧ ∀ (position : Nat) (cluster : Cluster),
          (number selected)[position]? = some cluster → cluster.id.index = position := by
  have ordered := precedes_mergeSort inhabited apart
  have perm := List.mergeSort_perm selected fun one other =>
    (compare (one.states.head?.map Ident.index) (other.states.head?.map Ident.index)).isLE
  unfold number
  dsimp only
  generalize selected.mergeSort _ = sorted at ordered perm
  constructor
  · rw [List.pairwise_iff_getElem] at ordered ⊢
    intro position later bound laterBound less
    rw [List.length_mapIdx] at bound laterBound
    simp only [List.getElem_mapIdx]
    exact ordered position later bound laterBound less
  · intro position cluster here
    rw [List.getElem?_mapIdx] at here
    obtain ⟨original, originalHere, rfl⟩ := Option.map_eq_some_iff.mp here
    have nonempty := inhabited original (perm.mem_iff.mp (List.mem_of_getElem? originalHere))
    obtain ⟨state, rest, states⟩ := List.exists_cons_of_ne_nil nonempty
    have head : original.states.head? = some state := by rw [states, List.head?_cons]
    have le := position_le (ordered.imp And.left) originalHere head
    exact Ident.index_ofIndex (Nat.lt_of_le_of_lt le state.number.toNat_lt)

end Mining

-----------------------------------------------------------------------------------------
-- Well-formed sets of clusters
-----------------------------------------------------------------------------------------

/-- (set.WellFormed minimum) means that the clusters of a set are large enough, ascend strictly
within and by their smallest states, have no state in common, and are named by their positions.
-/
structure ClusterSet.WellFormed (set : ClusterSet) (minimum : Nat) : Prop where
  unique : (set.clusters.flatMap Cluster.states).Nodup
  ascending : ∀ cluster ∈ set.clusters, cluster.states.Pairwise (· < ·)
  large : ∀ cluster ∈ set.clusters, minimum ≤ cluster.size
  named
    : ∀ (position : Nat) (cluster : Cluster),
        set.clusters[position]? = some cluster → cluster.id.index = position
  ordered
    : set.clusters.Pairwise fun cluster later =>
        ∃ first second,
          IsLeast {state | state ∈ cluster.states} first
          ∧ IsLeast {state | state ∈ later.states} second
          ∧ first < second
  located
    : ∀ state id,
        set.clusterOf? state = some id
        ↔ ∃ cluster, set.clusters[id.index]? = some cluster ∧ state ∈ cluster.states

theorem isLeast_head {states : List StateId} (ascending : states.Pairwise (· < ·)) {first : StateId}
    (head : states.head? = some first)
    : IsLeast {state | state ∈ states} first := by
  obtain ⟨rest, rfl⟩ := List.head?_eq_some_iff.mp head
  refine ⟨List.mem_cons_self, ?_⟩
  intro other member
  rcases List.mem_cons.mp member with same | later
  · exact Nat.le_of_eq (congrArg Ident.index same.symm)
  · exact Nat.le_of_lt ((List.pairwise_cons.mp ascending).1 other later)

namespace ClusterSet

variable {set : ClusterSet}

/-- A cluster owns its members and leaves other states to their owners, by induction on the members.
-/
theorem lookup_own (owners : List (StateId × ClusterId)) (cluster : Cluster) (state : StateId)
    : (own owners cluster).lookup state
      = if cluster.contains state then some cluster.id else owners.lookup state := by
  unfold own Cluster.contains
  induction cluster.states generalizing owners with
  | nil => rfl
  | cons member rest ih =>
      rw [List.foldl_cons, ih, List.lookup_cons, List.contains_cons]
      by_cases same : state = member
      · simp [same]
      · simp [beq_eq_false_iff_ne.mpr same]

/-- The last cluster that has a state as a member owns it, by induction on the clusters. -/
theorem lookup_foldl_own (clusters : List Cluster) (owners : List (StateId × ClusterId))
    (state : StateId)
    : (clusters.foldl own owners).lookup state
      = ((clusters.reverse.find? fun cluster => cluster.contains state).map Cluster.id).or
          (owners.lookup state) := by
  induction clusters generalizing owners with
  | nil => rfl
  | cons cluster rest ih =>
      rw [List.foldl_cons, ih, lookup_own, List.reverse_cons, List.find?_append]
      cases rest.reverse.find? fun other => other.contains state with
      | some found => rfl
      | none => cases inside : cluster.contains state <;> simp [inside]

/-- The owner of a state is the last cluster that has it as a member. -/
theorem clusterOf?_eq_find? (set : ClusterSet) (state : StateId)
    : set.clusterOf? state
      = (set.clusters.reverse.find? fun cluster => cluster.contains state).map Cluster.id := by
  rw [clusterOf?, owners, lookup_foldl_own, List.lookup_nil, Option.or_none]

/-- A state is found in the one cluster that has it as a member. -/
theorem clusterOf?_eq_some_iff
    (apart : set.clusters.Pairwise Cluster.Apart)
    (named
      : ∀ (position : Nat) (cluster : Cluster),
          set.clusters[position]? = some cluster → cluster.id.index = position)
    (state : StateId) (id : ClusterId)
    : set.clusterOf? state = some id
      ↔ ∃ cluster, set.clusters[id.index]? = some cluster ∧ state ∈ cluster.states := by
  have there : ∀ cluster ∈ set.clusters, set.clusters[cluster.id.index]? = some cluster := by
    intro cluster member
    obtain ⟨position, here⟩ := List.mem_iff_getElem?.mp member
    rw [named position cluster here]
    exact here
  rw [clusterOf?_eq_find?]
  constructor
  · intro found
    obtain ⟨cluster, last, rfl⟩ := Option.map_eq_some_iff.mp found
    refine ⟨cluster, there cluster (List.mem_reverse.mp (List.mem_of_find?_eq_some last)), ?_⟩
    simpa [Cluster.contains] using List.find?_some last
  · intro ⟨cluster, here, inside⟩
    have member := List.mem_of_getElem? here
    cases found : set.clusters.reverse.find? fun cluster => cluster.contains state with
    | none =>
        have missing := List.find?_eq_none.mp found cluster (List.mem_reverse.mpr member)
        exact absurd inside (by simpa [Cluster.contains] using missing)
    | some other =>
        have otherInside : state ∈ other.states := by
          simpa [Cluster.contains] using List.find?_some found
        have symmetric : Std.Symm Cluster.Apart := ⟨fun _ _ apart => apart.symm⟩
        have otherMember := List.mem_reverse.mp (List.mem_of_find?_eq_some found)
        have same : other = cluster := by
          by_contra different
          exact apart.forall otherMember member different otherInside inside
        rw [Option.map_some, same, Ident.index_inj.mp (named _ _ here)]

end ClusterSet

namespace Mining

variable {options : Options} {entries : List (StateId × Prepared)} {closed : List Cluster}

/-- What survives is one of the closed clusters under another name. -/
theorem exists_closed {cluster : Cluster}
    (survives : cluster ∈ (survey options entries closed).clusters)
    : ∃ original ∈ closed,
        options.minClusterSize ≤ original.size
        ∧ cluster = { original with id := cluster.id } := by
  obtain ⟨position, bound, rfl⟩ := List.mem_mapIdx.mp survives
  have selected := List.mem_mergeSort.mp (List.getElem_mem bound)
  have viable := List.mem_mergeSort.mp (select_sublist.subset selected)
  obtain ⟨member, large⟩ := List.mem_filter.mp viable
  exact ⟨_, member, of_decide_eq_true large, rfl⟩

/-- Among clusters that ascend strictly, a survey makes a well-formed choice. -/
theorem wellFormed_survey
    (ascending : ∀ cluster ∈ closed, cluster.states.Pairwise (· < ·))
    (inhabited : ∀ cluster ∈ closed, cluster.states ≠ [])
    : (survey options entries closed).WellFormed options.minClusterSize := by
  have strict : ∀ cluster ∈ (survey options entries closed).clusters,
      cluster.states.Pairwise (· < ·) := by
    intro cluster survives
    obtain ⟨original, member, _, same⟩ := exists_closed survives
    rw [same]
    exact ascending original member
  have numbered : (survey options entries closed).clusters.Pairwise
        (fun one other => Precedes one other ∧ one.Apart other)
      ∧ ∀ (position : Nat) (cluster : Cluster),
          (survey options entries closed).clusters[position]? = some cluster
          → cluster.id.index = position := by
    refine number_spec ?_ apart_select
    intro cluster member
    have viable := List.mem_mergeSort.mp (select_sublist.subset member)
    exact inhabited cluster (List.mem_filter.mp viable).1
  obtain ⟨ordered, named⟩ := numbered
  have apart := ordered.imp And.right
  refine {
    unique := ?_
    ascending := strict
    large := ?_
    named := named
    ordered := ?_
    located := ClusterSet.clusterOf?_eq_some_iff apart named
  }
  · refine List.nodup_flatMap.mpr ⟨?_, apart⟩
    intro cluster survives
    refine (strict cluster survives).imp ?_
    intro first second less same
    exact Nat.ne_of_lt less (congrArg Ident.index same)
  · intro cluster survives
    obtain ⟨original, _, large, same⟩ := exists_closed survives
    rw [same]
    exact large
  · refine List.Pairwise.imp_of_mem ?_ ordered
    intro cluster later member laterMember ⟨⟨first, second, head, laterHead, less⟩, _⟩
    exact ⟨first, second, isLeast_head (strict cluster member) head,
      isLeast_head (strict later laterMember) laterHead, less⟩

end Mining

end StepPlan
