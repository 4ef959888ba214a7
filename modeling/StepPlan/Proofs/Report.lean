import Mathlib
import StepPlan.Proofs.Schedule.Contiguity

/-! What the figures about a schedule count. Every run of adjacent groups of one cluster starts
somewhere, either where the cluster occurs for the first time or where it is resumed. So the breaks
are the runs less the clusters, and there are none if the groups of every cluster are next to one
another.
-/

namespace StepPlan.ScheduleReport

/-- The clusters that groups carry, one for each group that carries any. -/
def clusters (groups : List Group) : List ClusterId :=
  groups.filterMap Group.cluster

/-- Whether two groups carry the same cluster or both none. -/
def alike (group next : Group) : Bool :=
  group.cluster == next.cluster

/-- The groups cut into the longest runs of adjacent groups that carry the same cluster or none. -/
def memberRuns (groups : List Group) : List (List Group) :=
  groups.splitBy alike

/-- Whether a group of a run carries a cluster. -/
def carries (run : List Group) : Bool :=
  run.any fun group => group.cluster.isSome

/-- The longest runs of adjacent groups that carry the same cluster. -/
def clusterRuns (groups : List Group) : List (List Group) :=
  (memberRuns groups).filter carries

-----------------------------------------------------------------------------------------
-- Where runs start
-----------------------------------------------------------------------------------------

/-- The number of groups that carry another cluster than the group before. -/
def starts (previous : Option ClusterId) : List Group → Nat
  | [] => 0
  | group :: rest =>
      (if group.cluster ≠ none ∧ group.cluster ≠ previous then 1 else 0)
        + starts group.cluster rest

/-- A group that carries what the next group carries lengthens the run of that group. -/
theorem memberRuns_cons_of_eq {group next : Group} (same : group.cluster = next.cluster)
    (rest : List Group)
    : ∃ run later,
        memberRuns (next :: rest) = (next :: run) :: later
        ∧ memberRuns (group :: next :: rest) = (group :: next :: run) :: later := by
  obtain ⟨flat, full, chains, cuts⟩ := List.splitBy_eq_iff.mp (Eq.refl (memberRuns (next :: rest)))
  cases runs : memberRuns (next :: rest) with
  | nil => simp [memberRuns] at runs
  | cons first later =>
      rw [runs] at flat full chains cuts
      cases first with
      | nil => simp at full
      | cons head run =>
          obtain ⟨rfl, tail⟩ := List.cons.inj flat
          refine ⟨run, later, rfl, List.splitBy_eq_iff.mpr ⟨?_, ?_, ?_, ?_⟩⟩
          · simp [tail]
          · simpa using full
          · rw [List.forall_mem_cons] at chains ⊢
            exact ⟨List.isChain_cons_cons.mpr ⟨beq_of_eq same, chains.1⟩, chains.2⟩
          · rw [List.isChain_cons] at cuts ⊢
            simpa using cuts

/-- A group that carries something else than the next group is a run of its own. -/
theorem memberRuns_cons_of_ne {group next : Group} (different : group.cluster ≠ next.cluster)
    (rest : List Group)
    : memberRuns (group :: next :: rest) = [group] :: memberRuns (next :: rest) := by
  have apart : ∀ last ∈ [group].getLast?, alike last next = false := by
    simpa [alike] using different
  exact List.splitBy_append_cons (l := [group]) rest apart

/-- Runs are counted where they start, by induction on the groups. -/
theorem length_clusterRuns (groups : List Group)
    : (clusterRuns groups).length = starts none groups := by
  rw [clusterRuns, ← List.countP_eq_length_filter]
  induction groups with
  | nil => rfl
  | cons group rest ih =>
      have carried : carries [group] = true ↔ group.cluster ≠ none := by
        simp [carries, Option.isSome_iff_ne_none]
      cases rest with
      | nil =>
          have alone : memberRuns [group] = [[group]] := rfl
          simp [alone, carried, starts]
      | cons next rest =>
          by_cases same : group.cluster = next.cluster
          · obtain ⟨run, later, short, long⟩ := memberRuns_cons_of_eq same rest
            have carriedAlike : carries (group :: next :: run) = carries (next :: run) := by
              simp [carries, same]
            rw [long, List.countP_cons, carriedAlike, ← List.countP_cons, ← short, ih]
            simp [starts, same]
          · rw [memberRuns_cons_of_ne same, List.countP_cons, ih]
            simp [carried, starts, Ne.symm same, Nat.add_comm]

-----------------------------------------------------------------------------------------
-- Breaks
-----------------------------------------------------------------------------------------

/-- A cluster counts as new if it has not been seen, and from then on it has been. -/
theorem card_insert_sdiff (cluster : ClusterId) (found seen : Finset ClusterId)
    : (insert cluster found \ seen).card
      = (if cluster ∈ seen then 0 else 1) + (found \ insert cluster seen).card := by
  by_cases old : cluster ∈ seen
  · rw [Finset.insert_sdiff_of_mem _ old, Finset.insert_eq_of_mem old, if_pos old, Nat.zero_add]
  · have split : insert cluster found \ seen = insert cluster (found \ insert cluster seen) := by
      ext other
      by_cases same : other = cluster <;> simp [same, old]
    rw [split, Finset.card_insert_of_notMem (by simp), if_neg old, Nat.add_comm]

/-- Every run starts with a break or with a cluster that has not been seen, by induction on the
groups.
-/
theorem resumed_add_card {seen : List ClusterId} {previous : Option ClusterId}
    (known : ∀ cluster, previous = some cluster → cluster ∈ seen) (groups : List Group)
    : resumed seen previous groups + ((clusters groups).toFinset \ seen.toFinset).card
      = starts previous groups := by
  induction groups generalizing seen previous with
  | nil => simp [resumed, clusters, starts]
  | cons group rest ih =>
      unfold resumed starts
      cases membership : group.cluster with
      | none =>
          have step := @ih seen none nofun
          simpa [clusters, membership] using step
      | some cluster =>
          have step := @ih (cluster :: seen) (some cluster) (by simp)
          have found : clusters (group :: rest) = cluster :: clusters rest := by
            simp [clusters, membership]
          rw [List.toFinset_cons] at step
          rw [found, List.toFinset_cons, card_insert_sdiff, ← step]
          by_cases old : cluster ∈ seen
          · by_cases same : previous = some cluster
            · simp [old, same]
            · simp [old, same, Ne.symm same, Nat.add_assoc]
          · have different : previous ≠ some cluster := fun same => old (known cluster same)
            simp [old, different.symm]
            omega

-----------------------------------------------------------------------------------------
-- No breaks
-----------------------------------------------------------------------------------------

/-- No break is counted at a group that carries nothing, a cluster not seen before, or the cluster
of the group before.
-/
theorem resumed_cons_eq_zero_iff {seen : List ClusterId} {previous : Option ClusterId}
    {group : Group} {rest : List Group}
    : resumed seen previous (group :: rest) = 0
      ↔ (∀ cluster ∈ group.cluster, cluster ∈ seen → previous = some cluster)
        ∧ resumed (group.cluster.toList ++ seen) group.cluster rest = 0 := by
  rw [resumed, Nat.add_eq_zero_iff]
  refine and_congr_left fun _ => ?_
  cases group.cluster <;> simp

/-- Where no break is counted, the previous cluster goes on at once or not at all, other clusters
seen before do not come again, and the groups of any other cluster stand next to one another. By
induction on the groups: each of the three facts follows from one of them about the groups after the
first.
-/
theorem blocks_of_resumed {seen : List ClusterId} {previous : Option ClusterId}
    {groups : List Group} (unbroken : resumed seen previous groups = 0)
    (known : ∀ cluster, previous = some cluster → cluster ∈ seen) (cluster : ClusterId)
    : (previous = some cluster
        → ∃ block after,
            groups = block ++ after
            ∧ (∀ group ∈ block, group.cluster = some cluster)
            ∧ ∀ group ∈ after, group.cluster ≠ some cluster)
      ∧ (cluster ∈ seen
        → previous ≠ some cluster
        → ∀ group ∈ groups, group.cluster ≠ some cluster)
      ∧ (cluster ∉ seen → OneBlock (fun group => group.cluster = some cluster) groups) := by
  induction groups generalizing seen previous with
  | nil => exact ⟨fun _ => ⟨[], [], by simp⟩, by simp, fun _ => ⟨[], [], [], by simp⟩⟩
  | cons group rest ih =>
      obtain ⟨goesOn, later⟩ := resumed_cons_eq_zero_iff.mp unbroken
      obtain ⟨going, gone, coming⟩ := ih later (by simp +contextual)
      by_cases here : group.cluster = some cluster
      · obtain ⟨block, after, rfl, inside, outside⟩ := going here
        have longer : ∀ other ∈ group :: block, other.cluster = some cluster :=
          List.forall_mem_cons.mpr ⟨here, inside⟩
        refine ⟨fun _ => ⟨group :: block, after, rfl, longer, outside⟩, ?_, ?_⟩
        · intro member different
          exact absurd (goesOn cluster here member) different
        · exact fun _ => ⟨[], group :: block, after, rfl, longer, outside⟩
      · have finished : cluster ∈ seen → ∀ other ∈ group :: rest, other.cluster ≠ some cluster := by
          intro member
          exact List.forall_mem_cons.mpr ⟨here, gone (List.mem_append_right _ member) here⟩
        refine ⟨?_, fun member _ => finished member, ?_⟩
        · exact fun same => ⟨[], group :: rest, rfl, by simp, finished (known cluster same)⟩
        · intro fresh
          obtain ⟨before, block, after, rfl, inside, outside⟩ := coming (by simp [fresh, here])
          exact
            ⟨group :: before, block, after, rfl, inside, List.forall_mem_cons.mpr ⟨here, outside⟩⟩

/-- No break is counted exactly if the groups of every cluster stand next to one another. -/
theorem resumed_eq_zero_iff {groups : List Group}
    : resumed [] none groups = 0
      ↔ ∀ cluster, OneBlock (fun group => group.cluster = some cluster) groups := by
  constructor
  · intro unbroken cluster
    exact (blocks_of_resumed unbroken nofun cluster).2.2 List.not_mem_nil
  · intro blocks
    refine resumed_eq_zero ?_ nofun nofun
    rintro cluster ⟨first, middle, last, within, firstMember, middleOther, lastMember⟩
    exact middleOther ((blocks cluster).between within firstMember lastMember)

-----------------------------------------------------------------------------------------
-- The report
-----------------------------------------------------------------------------------------

theorem countStates_eq (groups : List Group)
    : countStates groups = (groups.flatMap Group.states).length := by
  induction groups with
  | nil => rfl
  | cons group rest ih =>
      rw [List.flatMap_cons, List.length_append, ← ih]
      rfl

/-- What the figures of a report say of the groups. The breaks make up for the difference between
the runs of groups that carry the same cluster and the clusters that occur.
-/
structure Describes (report : ScheduleReport) (groups : List Group) : Prop where
  breaks
    : report.contiguityBreaks + (clusters groups).toFinset.card = (clusterRuns groups).length
  states : report.states = (groups.flatMap Group.states).length
  clusteredStates
    : report.clusteredStates
      = ((groups.filter fun group => group.cluster.isSome).flatMap Group.states).length
  unbroken
    : report.contiguityBreaks = 0
      ↔ ∀ cluster, OneBlock (fun group => group.cluster = some cluster) groups

/-- The figures of a schedule count what they should, whatever the groups are. -/
theorem analyze_describes (groups : List Group) : (analyze groups).Describes groups where
  breaks := by
    have counted := @resumed_add_card [] none nofun groups
    rw [List.toFinset_nil, Finset.sdiff_empty] at counted
    rw [contiguityBreaks_analyze, length_clusterRuns]
    exact counted
  states := countStates_eq groups
  clusteredStates := countStates_eq _
  unbroken := by
    rw [contiguityBreaks_analyze]
    exact resumed_eq_zero_iff

end StepPlan.ScheduleReport
