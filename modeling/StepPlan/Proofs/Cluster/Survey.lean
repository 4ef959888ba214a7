import Mathlib.Data.List.Perm.Basic
import StepPlan.Proofs.Cluster.Selection

/-! A survey does not look at the names and signatures of clusters, nor at their order. Candidates
are compared by size, cost, shape and states, so sorting settles their order as soon as no two of
them compare equal. Selection and numbering then take the same clusters in the same order.
-/

namespace StepPlan

/-- A cluster with no trace of its name and its signature. -/
def Cluster.bare (cluster : Cluster) : Cluster :=
  { cluster with id := .ofIndex 0, signature := [] }

/-- A cluster with no trace of its signature. -/
def Cluster.unsigned (cluster : Cluster) : Cluster :=
  { cluster with signature := [] }

theorem total_map {α β : Type} (weight : β → Nat) (change : α → β) (items : List α)
    : total weight (items.map change) = total (weight ∘ change) items := by
  induction items with
  | nil => rfl
  | cons item rest ih => rw [List.map_cons, total, ih, total, Function.comp_apply]

namespace Mining

-----------------------------------------------------------------------------------------
-- The order of candidates
-----------------------------------------------------------------------------------------

theorem compareNumbers_eq (first second : List Nat)
    : compareNumbers first second = compare first second := by
  induction first generalizing second with
  | nil => cases second <;> rfl
  | cons number rest ih =>
      cases second with
      | nil => rfl
      | cons other others => rw [compareNumbers, ih, List.compare_cons_cons]

instance : Std.TransCmp compareClusters := by
  have composed : compareClusters
      = compareLex (fun first second => compareOn Cluster.size second first)
          (compareLex (compareOn Cluster.cost)
            (compareLex (compareOn fun cluster : Cluster => cluster.prototype.shape)
              (compareOn fun cluster : Cluster => cluster.states.map Ident.index))) := by
    funext first second
    simp only [compareClusters, compareNumbers_eq]
    rfl
  rw [composed]
  infer_instance

/-- Candidates that compare equal agree in shape and states. -/
theorem eq_of_compareClusters {first second : Cluster}
    (equal : compareClusters first second = .eq)
    : first.prototype.shape = second.prototype.shape ∧ first.states = second.states := by
  simp only [compareClusters, compareNumbers_eq, Ordering.then_eq_eq] at equal
  obtain ⟨_, _, shape, states⟩ := equal
  refine ⟨Std.LawfulEqOrd.eq_of_compare shape, ?_⟩
  refine List.map_injective_iff.mpr ?_ (Std.LawfulEqOrd.eq_of_compare states)
  exact fun _ _ => Ident.index_inj.mp

theorem sortClusters_eq {viable others : List Cluster}
    (perm : (viable.map Cluster.bare).Perm (others.map Cluster.bare))
    (strict : ∀ first ∈ viable, ∀ second ∈ viable,
      compareClusters first second = .eq → first.bare = second.bare)
    : (sortClusters viable).map Cluster.bare = (sortClusters others).map Cluster.bare := by
  have sorted : ∀ clusters, ((sortClusters clusters).map Cluster.bare).Pairwise
      fun first second => (compareClusters first second).isLE = true :=
    fun clusters => List.pairwise_map.mpr (pairwise_mergeSort_isLE compareClusters clusters)
  have kept : ∀ clusters, ((sortClusters clusters).map Cluster.bare).Perm
      (clusters.map Cluster.bare) :=
    fun clusters => (List.mergeSort_perm clusters _).map Cluster.bare
  refine List.Perm.eq_of_pairwise ?_ (sorted viable) (sorted others)
    (((kept viable).trans perm).trans (kept others).symm)
  intro first second member otherMember le ge
  obtain ⟨one, oneMember, rfl⟩ := List.mem_map.mp ((kept viable).mem_iff.mp member)
  obtain ⟨other, inside, rfl⟩ := List.mem_map.mp
    (perm.mem_iff.mpr ((kept others).mem_iff.mp otherMember))
  exact strict one oneMember other inside (Std.OrientedCmp.isLE_antisymm le ge)

-----------------------------------------------------------------------------------------
-- Selection
-----------------------------------------------------------------------------------------

theorem fits_map_bare (chosen : List Cluster) (cluster : Cluster)
    : fits (chosen.map Cluster.bare) cluster.bare = fits chosen cluster := by
  simp only [fits, List.all_map]
  rfl

theorem firstFit_map_bare (seed : Nat) (coming chosen : List (Cluster × Nat))
    : firstFit seed (coming.map (Prod.map Cluster.bare id)) (chosen.map (Prod.map Cluster.bare id))
      = (firstFit seed coming chosen).map (Prod.map Cluster.bare id) := by
  induction coming generalizing chosen with
  | nil => rfl
  | cons entry rest ih =>
      have same : fits ((chosen.map (Prod.map Cluster.bare id)).map Prod.fst) entry.1.bare
          = fits (chosen.map Prod.fst) entry.1 := by
        rw [← fits_map_bare (chosen.map Prod.fst), List.map_map, List.map_map]
        rfl
      simp only [List.map_cons, firstFit, Prod.map_fst, Prod.map_snd, id_eq, same]
      split
      · rw [← ih, List.map_append]
        rfl
      · exact ih chosen

theorem cheapest_map {change : List (Cluster × Nat) → List (Cluster × Nat)}
    (empty : change [] = []) (cost : List (Cluster × Nat) → Nat)
    (alternatives : List (List (Cluster × Nat)))
    : cheapest cost (alternatives.map change) = change (cheapest (cost ∘ change) alternatives) := by
  cases alternatives with
  | nil => exact empty.symm
  | cons first rest =>
      simp only [List.map_cons, cheapest, List.foldl_map]
      apply List.foldl_hom change
      intro best next
      rw [apply_ite change]
      rfl

theorem selectionCost_map_bare (inline : StateId → Nat) (viable chosen : List Cluster)
    : selectionCost inline (viable.map Cluster.bare) (chosen.map Cluster.bare)
      = selectionCost inline viable chosen := by
  simp only [selectionCost, coveredStates, total_map, List.flatMap_map]
  rfl

theorem best_map_bare (inline : StateId → Nat) (viable : List Cluster)
    : best inline (viable.map Cluster.bare) = best inline viable := by
  have passes : (viable.zipIdx.map (Prod.map Cluster.bare id)).map (fun seed =>
        firstFit seed.2 (viable.zipIdx.map (Prod.map Cluster.bare id)) [seed])
      = (viable.zipIdx.map fun seed => firstFit seed.2 viable.zipIdx [seed]).map
          (List.map (Prod.map Cluster.bare id)) := by
    rw [List.map_map, List.map_map]
    refine List.map_congr_left fun seed _ => ?_
    exact firstFit_map_bare seed.2 viable.zipIdx [seed]
  have costs : (fun chosen : List (Cluster × Nat) =>
        selectionCost inline (viable.map Cluster.bare) (chosen.map Prod.fst))
          ∘ List.map (Prod.map Cluster.bare id)
      = fun chosen => selectionCost inline viable (chosen.map Prod.fst) := by
    funext chosen
    rw [← selectionCost_map_bare, Function.comp_apply, List.map_map, List.map_map]
    rfl
  unfold best
  dsimp only
  rw [List.zipIdx_map, passes, cheapest_map rfl, costs, List.map_map]
  rfl

theorem atPositions_map_bare (positions : List Nat) (viable : List Cluster)
    : atPositions positions (viable.map Cluster.bare)
      = (atPositions positions viable).map Cluster.bare := by
  rw [atPositions, atPositions, List.zipIdx_map, List.filter_map, List.map_map, List.map_map]
  rfl

theorem countOthers_map_bare (positions : List Nat) (viable : List Cluster)
    : countOthers positions (viable.map Cluster.bare) = countOthers positions viable := by
  rw [countOthers, countOthers, List.zipIdx_map, List.countP_map]
  rfl

theorem number_map_bare (selected : List Cluster)
    : number (selected.map Cluster.bare) = (number selected).map Cluster.unsigned := by
  let ordered (one other : Cluster) : Bool :=
    (compare (one.states.head?.map Ident.index) (other.states.head?.map Ident.index)).isLE
  have sorted : (selected.map Cluster.bare).mergeSort ordered
      = (selected.mergeSort ordered).map Cluster.bare := by
    rw [List.map_mergeSort]
    intros
    rfl
  unfold number
  dsimp only
  rw [sorted, List.mapIdx_eq_zipIdx_map, List.mapIdx_eq_zipIdx_map, List.zipIdx_map, List.map_map,
    List.map_map]
  rfl

/-- The same clusters are large enough, and they come in the same order. -/
theorem viable_eq (minimum : Nat) {closed others : List Cluster}
    (perm : (closed.map Cluster.bare).Perm (others.map Cluster.bare))
    (strict : ∀ first ∈ closed, ∀ second ∈ closed,
      compareClusters first second = .eq → first.bare = second.bare)
    : (sortClusters (closed.filter fun cluster => decide (minimum ≤ cluster.size))).map
        Cluster.bare
      = (sortClusters (others.filter fun cluster => decide (minimum ≤ cluster.size))).map
        Cluster.bare := by
  apply sortClusters_eq
  · have filtered : ∀ clusters : List Cluster,
        (clusters.filter fun cluster => decide (minimum ≤ cluster.size)).map Cluster.bare
        = (clusters.map Cluster.bare).filter fun cluster => decide (minimum ≤ cluster.size) := by
      intro clusters
      rw [List.filter_map]
      rfl
    rw [filtered, filtered]
    exact perm.filter _
  · intro first member second otherMember
    exact strict first (List.mem_filter.mp member).1 second (List.mem_filter.mp otherMember).1

/-- Surveys of the same clusters, in any order and under any names and signatures, come to the same
result.
-/
theorem survey_eq (options : Options) {entries otherEntries : List (StateId × Prepared)}
    {closed others : List Cluster}
    (inline : inlineLength entries = inlineLength otherEntries)
    (perm : (closed.map Cluster.bare).Perm (others.map Cluster.bare))
    (strict : ∀ first ∈ closed, ∀ second ∈ closed,
      compareClusters first second = .eq → first.bare = second.bare)
    : (survey options entries closed).report = (survey options otherEntries others).report
      ∧ (survey options entries closed).clusters.map Cluster.unsigned
        = (survey options otherEntries others).clusters.map Cluster.unsigned := by
  have viable := viable_eq options.minClusterSize perm strict
  have closedLength : closed.length = others.length := by simpa using perm.length_eq
  have small := perm.countP_eq fun cluster => decide (cluster.size < options.minClusterSize)
  rw [List.countP_map, List.countP_map] at small
  simp only [survey, inline, closedLength]
  generalize sortClusters _ = first at viable
  generalize sortClusters _ = second at viable
  -- The same positions are chosen, and what stands there is the same but for names.
  have positions := congrArg (best (inlineLength otherEntries)) viable
  rw [best_map_bare, best_map_bare] at positions
  rw [positions]
  generalize best _ second = positions
  have selected := congrArg (atPositions positions) viable
  rw [atPositions_map_bare, atPositions_map_bare] at selected
  have clusters := congrArg number selected
  rw [number_map_bare, number_map_bare] at clusters
  have cost := congrArg₂ (selectionCost (inlineLength otherEntries)) viable selected
  rw [selectionCost_map_bare, selectionCost_map_bare] at cost
  have dropped := congrArg (countOthers positions) viable
  rw [countOthers_map_bare, countOthers_map_bare] at dropped
  have selectedLength := congrArg List.length selected
  rw [List.length_map, List.length_map] at selectedLength
  rw [dropped, selectedLength, cost]
  exact ⟨congrArg (fun count => MiningReport.mk _ count _ _ _) small, clusters⟩

end Mining

end StepPlan
