import Mathlib
import StepPlan.Proofs.Cluster.Survey
import StepPlan.Proofs.Distinct

/-! A survey keeps the cheapest of the first-fit passes, one for each candidate as the seed. A pass
leaves out only clusters that share a state with one it has taken, and its cost does not depend on
the order in which clusters are listed or on their names.
-/

namespace StepPlan

instance : DecidableRel Cluster.Apart := fun _ _ =>
  decidable_of_iff _ Cluster.sharesMember_eq_false_iff

/-- (survivor.Renames cluster) means that a cluster has become the survivor under a new name. -/
def Cluster.Renames (survivor cluster : Cluster) : Prop :=
  survivor = { cluster with id := survivor.id }

namespace Mining

-----------------------------------------------------------------------------------------
-- Passes
-----------------------------------------------------------------------------------------

/-- Takes a cluster if it is apart from those taken before. -/
def takeApart (taken : List Cluster) (cluster : Cluster) : List Cluster :=
  if ∀ other ∈ taken, other.Apart cluster then taken ++ [cluster] else taken

/-- Takes the seed, and then one after the other each cluster that is apart from those taken. -/
def pass (seed : Cluster) (others : List Cluster) : List Cluster :=
  others.foldl takeApart [seed]

/-- First fit is a pass over the clusters that are not the seed, by induction on the clusters to
come.
-/
theorem map_fst_firstFit (seed : Nat) (coming chosen : List (Cluster × Nat))
    : (firstFit seed coming chosen).map Prod.fst
      = ((coming.filter fun entry => entry.2 ≠ seed).map Prod.fst).foldl takeApart
          (chosen.map Prod.fst) := by
  induction coming generalizing chosen with
  | nil => rfl
  | cons entry rest ih =>
      rw [firstFit]
      by_cases other : entry.2 = seed
      · simp [other, ih]
      · by_cases fit : fits (chosen.map Prod.fst) entry.1 = true
        · have taken : takeApart (chosen.map Prod.fst) entry.1
              = (chosen ++ [entry]).map Prod.fst := by
            rw [takeApart, if_pos (fits_iff.mp fit), List.map_append]
            rfl
          rw [if_pos ⟨other, fit⟩, ih]
          simp [other, taken]
        · have left : takeApart (chosen.map Prod.fst) entry.1 = chosen.map Prod.fst :=
            if_neg (mt fits_iff.mpr fit)
          rw [if_neg (fun both => fit both.2), ih]
          simp [other, left]

variable {inline : StateId → Nat} {viable : List Cluster}

/-- A candidate with its position splits the candidates. -/
theorem mem_zipIdx_iff_split {entry : Cluster × Nat}
    : entry ∈ viable.zipIdx
      ↔ ∃ before after, viable = before ++ entry.1 :: after ∧ before.length = entry.2 := by
  rw [List.mem_zipIdx_iff_getElem?]
  constructor
  · intro here
    obtain ⟨bound, same⟩ := List.getElem?_eq_some_iff.mp here
    refine ⟨viable.take entry.2, viable.drop (entry.2 + 1), ?_, List.length_take_of_le bound.le⟩
    rw [← same, List.getElem_cons_drop, List.take_append_drop]
  · intro split
    obtain ⟨before, after, rfl, length⟩ := split
    rw [← length]
    simp

/-- First fit from a seed is the pass that the seed starts, over what stands before and after it. -/
theorem firstFit_eq_pass (before after : List Cluster) (seed : Cluster)
    : (firstFit before.length (before ++ seed :: after).zipIdx [(seed, before.length)]).map Prod.fst
      = pass seed (before ++ after) := by
  have earlier : before.zipIdx.filter (fun entry => entry.2 ≠ before.length) = before.zipIdx := by
    refine List.filter_eq_self.mpr ?_
    intro entry member
    obtain ⟨_, bound, _⟩ := List.mem_zipIdx member
    simp
    omega
  have later : (after.zipIdx (before.length + 1)).filter (fun entry => entry.2 ≠ before.length)
      = after.zipIdx (before.length + 1) := by
    refine List.filter_eq_self.mpr ?_
    intro entry member
    obtain ⟨bound, _, _⟩ := List.mem_zipIdx member
    simp
    omega
  rw [map_fst_firstFit, List.zipIdx_append, List.filter_append, earlier, Nat.zero_add,
    List.zipIdx_cons, List.filter_cons_of_neg (by simp), later, List.map_append,
    List.zipIdx_map_fst, List.zipIdx_map_fst]
  rfl

/-- A pass keeps what it has taken, and what it leaves out shares a state with something it has
taken. Induction on the clusters to come.
-/
theorem foldl_takeApart_spec (coming taken : List Cluster)
    : taken ⊆ coming.foldl takeApart taken
      ∧ ∀ cluster ∈ coming,
          cluster ∈ coming.foldl takeApart taken
          ∨ ∃ other ∈ coming.foldl takeApart taken, ¬ other.Apart cluster := by
  induction coming generalizing taken with
  | nil => exact ⟨List.Subset.refl taken, nofun⟩
  | cons cluster rest ih =>
      obtain ⟨kept, others⟩ := ih (takeApart taken cluster)
      rw [List.foldl_cons]
      by_cases apart : ∀ other ∈ taken, other.Apart cluster
      · have step : takeApart taken cluster = taken ++ [cluster] := if_pos apart
        rw [step] at kept others ⊢
        obtain ⟨old, new⟩ := List.append_subset.mp kept
        refine ⟨old, List.forall_mem_cons.mpr ⟨Or.inl (new List.mem_cons_self), others⟩⟩
      · have step : takeApart taken cluster = taken := if_neg apart
        rw [step] at kept others ⊢
        refine ⟨kept, List.forall_mem_cons.mpr ⟨Or.inr ?_, others⟩⟩
        push Not at apart
        obtain ⟨other, member, shares⟩ := apart
        exact ⟨other, kept member, shares⟩

/-- Every candidate is taken by a pass or shares a state with a cluster that is. -/
theorem pass_maximal (before after : List Cluster) (seed : Cluster)
    : ∀ cluster ∈ before ++ seed :: after,
        cluster ∈ pass seed (before ++ after)
        ∨ ∃ other ∈ pass seed (before ++ after), ¬ other.Apart cluster := by
  obtain ⟨kept, others⟩ := foldl_takeApart_spec (before ++ after) [seed]
  rw [List.forall_mem_append] at others ⊢
  exact ⟨others.1, List.forall_mem_cons.mpr ⟨Or.inl (kept List.mem_cons_self), others.2⟩⟩

-----------------------------------------------------------------------------------------
-- Costs
-----------------------------------------------------------------------------------------

theorem total_eq_sum {α : Type} (weight : α → Nat) (items : List α)
    : total weight items = (items.map weight).sum := by
  induction items with
  | nil => rfl
  | cons item rest ih => rw [total, ih, List.map_cons, List.sum_cons]

/-- The cost of a choice among candidates: two for each member, the length of each routine, the size
of each table of arguments, and the formulas of the states that no chosen cluster covers.
-/
def choiceCost (inline : StateId → Nat) (viable chosen : List Cluster) : Nat :=
  (chosen.map fun cluster =>
      2 * cluster.members.length + cluster.prototype.length
      + cluster.members.length * cluster.arguments.length).sum
    + ∑ state ∈ (viable.flatMap Cluster.states).toFinset
          \ (chosen.flatMap Cluster.states).toFinset,
        inline state

theorem selectionCost_eq (inline : StateId → Nat) (viable chosen : List Cluster)
    : selectionCost inline viable chosen = choiceCost inline viable chosen := by
  have distinct : ((coveredStates viable).filter fun state =>
      !(coveredStates chosen).contains state).Nodup :=
    (nodup_eraseDups _).filter _
  have states : ((coveredStates viable).filter fun state =>
        !(coveredStates chosen).contains state).toFinset
      = (viable.flatMap Cluster.states).toFinset \ (chosen.flatMap Cluster.states).toFinset := by
    ext state
    simp [coveredStates]
  rw [selectionCost, choiceCost, ← states, List.sum_toFinset _ distinct, total_eq_sum,
    total_eq_sum]
  rfl

theorem choiceCost_perm (inline : StateId → Nat) (viable : List Cluster)
    {chosen other : List Cluster} (perm : chosen.Perm other)
    : choiceCost inline viable chosen = choiceCost inline viable other := by
  have states : (chosen.flatMap Cluster.states).toFinset
      = (other.flatMap Cluster.states).toFinset :=
    List.toFinset_eq_of_perm _ _ (perm.flatMap_right Cluster.states)
  rw [choiceCost, choiceCost, states, (perm.map _).sum_eq]

theorem choiceCost_congr {other : StateId → Nat}
    (same : ∀ cluster ∈ viable, ∀ state ∈ cluster.states, inline state = other state)
    (chosen : List Cluster)
    : choiceCost inline viable chosen = choiceCost other viable chosen := by
  rw [choiceCost, choiceCost]
  congr 1
  apply Finset.sum_congr rfl
  intro state uncovered
  have listed := List.mem_toFinset.mp (Finset.mem_sdiff.mp uncovered).1
  obtain ⟨cluster, member, belongs⟩ := List.mem_flatMap.mp listed
  exact same cluster member state belongs

-----------------------------------------------------------------------------------------
-- Surveys
-----------------------------------------------------------------------------------------

/-- What is read off clusters without looking at their names does not change when they are renamed.
-/
theorem map_eq_of_renames {β : Type} {view : Cluster → β}
    (unnamed : ∀ cluster id, view { cluster with id := id } = view cluster)
    {survivors sorted : List Cluster} (renames : List.Forall₂ Cluster.Renames survivors sorted)
    : survivors.map view = sorted.map view := by
  induction renames with
  | nil => rfl
  | cons head _ ih =>
      rw [List.map_cons, List.map_cons, ih, head, unnamed]

/-- Numbering sorts and renames. -/
theorem exists_sorted (selected : List Cluster)
    : ∃ sorted,
        sorted.Perm selected ∧ List.Forall₂ Cluster.Renames (number selected) sorted := by
  refine ⟨selected.mergeSort fun one other => (compare (one.states.head?.map Ident.index)
    (other.states.head?.map Ident.index)).isLE, List.mergeSort_perm selected _, ?_⟩
  refine List.forall₂_iff_get.mpr ⟨List.length_mapIdx, ?_⟩
  intro position bound otherBound
  simp only [number, List.get_eq_getElem, List.getElem_mapIdx, Cluster.Renames]

theorem exists_of_mem_number {selected : List Cluster} {survivor : Cluster}
    (member : survivor ∈ number selected)
    : ∃ cluster ∈ selected, survivor.Renames cluster := by
  obtain ⟨position, bound, rfl⟩ := List.mem_mapIdx.mp member
  exact ⟨_, List.mem_mergeSort.mp (List.getElem_mem bound), rfl⟩

theorem exists_mem_number {selected : List Cluster} {cluster : Cluster}
    (member : cluster ∈ selected)
    : ∃ survivor ∈ number selected, survivor.Renames cluster := by
  obtain ⟨sorted, perm, renames⟩ := exists_sorted selected
  obtain ⟨position, bound, rfl⟩ := List.mem_iff_getElem.mp (perm.mem_iff.mpr member)
  obtain ⟨length, each⟩ := List.forall₂_iff_get.mp renames
  exact ⟨_, List.getElem_mem (length ▸ bound), each position _ bound⟩

theorem length_number (selected : List Cluster) : (number selected).length = selected.length := by
  rw [number, List.length_mapIdx, List.length_mergeSort]

theorem choiceCost_number (inline : StateId → Nat) (viable selected : List Cluster)
    : choiceCost inline viable (number selected) = choiceCost inline viable selected := by
  obtain ⟨sorted, perm, renames⟩ := exists_sorted selected
  have states : (number selected).flatMap Cluster.states = sorted.flatMap Cluster.states :=
    congrArg List.flatten (map_eq_of_renames (fun _ _ => rfl) renames)
  rw [← choiceCost_perm inline viable perm, choiceCost, choiceCost, states,
    map_eq_of_renames (fun _ _ => rfl) renames]

end Mining

/-- (set.Selects inline viable) means that a set keeps viable clusters and leaves out only those
that conflict with one it keeps, that no pass is cheaper, and that it reports its cost and its size.
-/
structure ClusterSet.Selects (set : ClusterSet) (inline : StateId → Nat) (viable : List Cluster)
    : Prop where
  chosen : ∀ survivor ∈ set.clusters, ∃ cluster ∈ viable, survivor.Renames cluster
  maximal
    : ∀ cluster ∈ viable,
        (∃ survivor ∈ set.clusters, survivor.Renames cluster)
        ∨ ∃ survivor ∈ set.clusters, ¬ survivor.Apart cluster
  cost : set.report.selectionCost = Mining.choiceCost inline viable set.clusters
  least
    : ∀ before seed after,
        viable = before ++ seed :: after
        → set.report.selectionCost
          ≤ Mining.choiceCost inline viable (Mining.pass seed (before ++ after))
  selected : set.report.selected = set.clusters.length
  dropped : set.report.droppedConflicts + set.report.selected = viable.length

theorem ClusterSet.Selects.congr {set : ClusterSet} {inline other : StateId → Nat}
    {viable : List Cluster} (selects : set.Selects inline viable)
    (same : ∀ cluster ∈ viable, ∀ state ∈ cluster.states, inline state = other state)
    : set.Selects other viable where
  chosen := selects.chosen
  maximal := selects.maximal
  cost := selects.cost.trans (Mining.choiceCost_congr same _)
  least before seed after split := by
    rw [← Mining.choiceCost_congr same]
    exact selects.least before seed after split
  selected := selects.selected
  dropped := selects.dropped

namespace Mining

variable {closed viable : List Cluster}

/-- What a selection leaves out shares a state with something in it. -/
theorem select_maximal {inline : StateId → Nat} {cluster : Cluster} (member : cluster ∈ viable)
    : cluster ∈ select inline viable
      ∨ ∃ other ∈ select inline viable, ¬ other.Apart cluster := by
  obtain ⟨⟨seed, position⟩, seedMember, perm, _⟩ := exists_pass inline (List.ne_nil_of_mem member)
  obtain ⟨before, after, rfl, rfl⟩ := mem_zipIdx_iff_split.mp seedMember
  rw [firstFit_eq_pass] at perm
  rcases pass_maximal before after seed cluster member with taken | ⟨other, taken, shares⟩
  · exact Or.inl (perm.mem_iff.mpr taken)
  · exact Or.inr ⟨other, perm.mem_iff.mpr taken, shares⟩

/-- No pass costs less than the selection. -/
theorem select_least {inline : StateId → Nat} {before after : List Cluster} {seed : Cluster}
    (split : viable = before ++ seed :: after)
    : choiceCost inline viable (select inline viable)
      ≤ choiceCost inline viable (pass seed (before ++ after)) := by
  have member : (seed, before.length) ∈ viable.zipIdx :=
    mem_zipIdx_iff_split.mpr ⟨before, after, split, rfl⟩
  have nonempty : viable ≠ [] := by simp [split]
  obtain ⟨_, _, perm, least⟩ := exists_pass inline nonempty
  have bound := least _ member
  rw [selectionCost_eq, selectionCost_eq, ← choiceCost_perm inline viable perm] at bound
  subst split
  rwa [firstFit_eq_pass] at bound

/-- The clusters that are large enough, in the order in which they are tried. -/
def viableOf (minimum : Nat) (closed : List Cluster) : List Cluster :=
  sortClusters (closed.filter fun cluster => decide (minimum ≤ cluster.size))

theorem viableOf_perm (minimum : Nat) (closed : List Cluster)
    : (viableOf minimum closed).Perm
        (closed.filter fun cluster => decide (minimum ≤ cluster.size)) :=
  List.mergeSort_perm _ _

theorem mem_viableOf {minimum : Nat} {cluster : Cluster}
    : cluster ∈ viableOf minimum closed ↔ cluster ∈ closed ∧ minimum ≤ cluster.size := by
  rw [(viableOf_perm minimum closed).mem_iff, List.mem_filter, decide_eq_true_eq]

/-- Every cluster is too small or large enough. -/
theorem countSmall_add_length (minimum : Nat) (closed : List Cluster)
    : closed.length
      = (closed.countP fun cluster => decide (cluster.size < minimum))
        + (viableOf minimum closed).length := by
  rw [(viableOf_perm minimum closed).length_eq, ← List.countP_eq_length_filter,
    List.length_eq_countP_add_countP fun cluster : Cluster => decide (cluster.size < minimum)]
  simp

/-- A survey selects among the clusters that are large enough. -/
theorem selects_survey (options : Options) (entries : List (StateId × Prepared))
    (closed : List Cluster)
    : (survey options entries closed).Selects (inlineLength entries)
        (viableOf options.minClusterSize closed) := by
  let viable := viableOf options.minClusterSize closed
  let selected := select (inlineLength entries) viable
  have clusters : (survey options entries closed).clusters = number selected := rfl
  have cost : (survey options entries closed).report.selectionCost
      = choiceCost (inlineLength entries) viable selected :=
    selectionCost_eq _ _ _
  refine ⟨?_, ?_, ?_, ?_, ?_, ?_⟩
  · intro survivor member
    obtain ⟨cluster, taken, renamed⟩ := exists_of_mem_number member
    exact ⟨cluster, select_sublist.subset taken, renamed⟩
  · intro cluster member
    rcases select_maximal member with taken | ⟨other, taken, shares⟩
    · exact Or.inl (exists_mem_number taken)
    · obtain ⟨survivor, inside, renamed⟩ := exists_mem_number taken
      refine Or.inr ⟨survivor, inside, ?_⟩
      rw [renamed]
      exact shares
  · rw [clusters, cost, choiceCost_number]
  · intro before seed after split
    rw [cost]
    exact select_least split
  · exact (length_number selected).symm
  · exact countOthers_add_length _ viable

end Mining

end StepPlan
