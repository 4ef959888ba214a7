import Mathlib
import StepPlan.Proofs.Schedule.Queues

/-! Soundness of schedules. No job of a group depends on another, so dependencies always lead to
strictly earlier groups. Carried over to states, this is what a schedule promises.
-/

namespace StepPlan

open Relation

namespace Workload

-----------------------------------------------------------------------------------------
-- Dependencies lead to earlier groups
-----------------------------------------------------------------------------------------

/-- What a job depends on is in an earlier group. In the order it stands before the job, and of the
job's own group nothing before the job is a dependency.
-/
theorem dependsOn_earlier_group {work : Workload} {position : Nat} {group : List Nat}
    (groupAt : work.jobGroups[position]? = some group) {job other : Nat} (inside : job ∈ group)
    (depends : work.DependsOn job other)
    : ∃ earlier < position, ∃ found, work.jobGroups[earlier]? = some found ∧ other ∈ found := by
  obtain ⟨known, same⟩ := List.getElem?_eq_some_iff.mp groupAt
  obtain ⟨front, back, split⟩ := List.append_of_mem inside
  have parts : work.jobGroups
      = work.jobGroups.take position ++ group :: work.jobGroups.drop (position + 1) := by
    rw [← same, ← List.drop_eq_getElem_cons known, List.take_append_drop]
  have order : work.order
      = ((work.jobGroups.take position).flatten ++ front)
        ++ job :: (back ++ (work.jobGroups.drop (position + 1)).flatten) := by
    rw [← jobGroups_flatten]
    conv_lhs => rw [parts, split]
    simp
  rcases List.mem_append.mp (order_split order depends) with before | sameGroup
  · obtain ⟨found, foundMember, otherMember⟩ := List.mem_flatten.mp before
    obtain ⟨earlier, lower, rfl⟩ := List.mem_take_iff_getElem.mp foundMember
    exact ⟨earlier, by omega, _, List.getElem?_eq_getElem (by omega), otherMember⟩
  · have forward := work.collected_order.forward group
      (List.mem_reverse.mp (List.mem_of_getElem? groupAt))
    rw [split] at forward
    exact absurd depends
      ((List.pairwise_append.mp forward).2.2 other sameGroup job List.mem_cons_self)

/-- What a job leads to is in an earlier group, by induction along the dependencies. -/
theorem leads_earlier_group {work : Workload} {position : Nat} {group : List Nat}
    (groupAt : work.jobGroups[position]? = some group) {job other : Nat} (inside : job ∈ group)
    (leads : TransGen work.DependsOn job other)
    : ∃ earlier < position, ∃ found, work.jobGroups[earlier]? = some found ∧ other ∈ found := by
  induction leads with
  | single depends => exact dependsOn_earlier_group groupAt inside depends
  | tail _ depends ih =>
      obtain ⟨middle, lower, found, foundAt, member⟩ := ih
      obtain ⟨earlier, further, last, lastAt, lastMember⟩ :=
        dependsOn_earlier_group foundAt member depends
      exact ⟨earlier, Nat.lt_trans further lower, last, lastAt, lastMember⟩

/-- A job is in one group only, since it is issued once. -/
theorem group_unique {work : Workload} {position other : Nat} {group otherGroup : List Nat}
    (groupAt : work.jobGroups[position]? = some group)
    (otherAt : work.jobGroups[other]? = some otherGroup) {job : Nat} (inside : job ∈ group)
    (otherInside : job ∈ otherGroup)
    : position = other := by
  have unique := work.order_nodup
  rw [← jobGroups_flatten] at unique
  have apart := List.pairwise_iff_getElem.mp (List.nodup_flatten.mp unique).2
  obtain ⟨known, rfl⟩ := List.getElem?_eq_some_iff.mp groupAt
  obtain ⟨otherKnown, rfl⟩ := List.getElem?_eq_some_iff.mp otherAt
  rcases Nat.lt_trichotomy position other with lower | same | higher
  · exact absurd otherInside (apart position other known otherKnown lower inside)
  · exact same
  · exact absurd inside (apart other position otherKnown known higher otherInside)

-----------------------------------------------------------------------------------------
-- From jobs to states
-----------------------------------------------------------------------------------------

/-- A state is in a group exactly when it belongs to one of the group's jobs. -/
theorem exists_jobGroup {work : Workload} {position : Nat} {group : Group}
    (groupAt : work.groups[position]? = some group)
    : ∃ jobs,
        work.jobGroups[position]? = some jobs
        ∧ group.cluster = jobs.head?.bind work.clusterOf
        ∧ ∀ state, state ∈ group.states ↔ ∃ job ∈ jobs, state ∈ work.statesOf job := by
  rw [groups, List.getElem?_map] at groupAt
  obtain ⟨jobs, jobsAt, rfl⟩ := Option.map_eq_some_iff.mp groupAt
  exact ⟨jobs, jobsAt, rfl, fun state => List.mem_flatMap⟩

/-- The states of all groups are those of the issued jobs, in order. -/
theorem groups_flatMap_states (work : Workload)
    : work.groups.flatMap Group.states = work.order.flatMap work.statesOf := by
  rw [← jobGroups_flatten, groups, List.flatMap_map, List.flatMap_def, List.flatMap_def,
    List.map_flatten, List.flatten_flatten, List.map_map]
  rfl

/-- If nothing is left, the jobs are issued in some order, each once. -/
theorem order_perm {work : Workload} (done : work.left = [])
    : work.order.Perm (List.range work.size) := by
  simpa [done] using work.order_append_left_perm

/-- The states of all job numbers are those of all jobs, in order. -/
theorem range_flatMap_statesOf (work : Workload)
    : (List.range work.size).flatMap work.statesOf = work.jobs.flatMap Job.states := by
  have same : (List.range work.size).map work.statesOf = work.jobs.map Job.states := by
    refine List.ext_getElem (by simp [size]) fun position known _ => ?_
    simp only [List.length_map, List.length_range] at known
    simp [statesOf, List.getElem?_eq_getElem (show position < work.jobs.length from known)]
  rw [List.flatMap_def, List.flatMap_def, same]

end Workload

namespace Graph

/-- What a schedule of the chosen states promises: it holds each of them once and nothing else,
the states of a group have the membership of the group, and a state stands in a later group
than every state it needs.
-/
structure SoundSchedule (graph : Graph) (chosen : List StateId) (groups : List Group)
    : Prop where
  once : (groups.flatMap Group.states).Nodup
  exactly : ∀ state, state ∈ groups.flatMap Group.states ↔ state ∈ chosen
  uniform
    : ∀ group ∈ groups, ∀ state ∈ group.states, graph.stateCluster? state = group.cluster
  layered
    : ∀ (position otherPosition : Nat) (group otherGroup : Group),
        groups[position]? = some group
        → groups[otherPosition]? = some otherGroup
        → ∀ state ∈ group.states,
            ∀ other ∈ otherGroup.states,
              graph.Needs state other → otherPosition < position

/-- A schedule comes from the work for the chosen states, which leaves nothing. -/
theorem exists_work {graph : Graph} {chosen : List StateId} {groups : List Group}
    (scheduled : graph.schedule chosen = .ok groups)
    : ∃ work,
        Workload.ofStates graph chosen = .ok work ∧ work.left = [] ∧ groups = work.groups := by
  cases made : Workload.ofStates graph chosen with
  | error error => cases (scheduleBy_of_error _ made).symm.trans scheduled
  | ok work =>
      rcases scheduleBy_of_made ComponentSearch.depthFirst made with ⟨done, ok⟩ | ⟨_, failed⟩
      · cases ok.symm.trans scheduled
        exact ⟨work, rfl, done, rfl⟩
      · cases failed.symm.trans scheduled

/-- A schedule comes from a workload that represents the chosen states and leaves nothing. -/
theorem schedule_eq_ok {graph : Graph} (inside : graph.EdgesInside) {chosen : List StateId}
    {groups : List Group} (scheduled : graph.schedule chosen = .ok groups)
    : ∃ work : Workload,
        work.Represents graph chosen ∧ work.left = [] ∧ groups = work.groups := by
  obtain ⟨work, made, done⟩ := exists_work scheduled
  exact ⟨work, Workload.represents_ofStates inside made, done⟩

/-- The groups of a workload that leaves nothing are a sound schedule of what it represents. -/
theorem soundSchedule_groups {graph : Graph} {chosen : List StateId} {work : Workload}
    (represents : work.Represents graph chosen) (done : work.left = [])
    : graph.SoundSchedule chosen work.groups := by
  have states : (work.groups.flatMap Group.states).Perm (work.jobs.flatMap Job.states) := by
    rw [work.groups_flatMap_states, ← work.range_flatMap_statesOf]
    exact (Workload.order_perm done).flatMap_right _
  refine ⟨states.nodup_iff.mpr represents.unique, ?_, ?_, ?_⟩
  · intro state
    rw [states.mem_iff, represents.mem_iff, List.mem_flatMap]
    simp only [Workload.mem_statesOf_iff]
    constructor
    · rintro ⟨job, member, listed⟩
      obtain ⟨number, jobAt⟩ := List.mem_iff_getElem?.mp member
      exact ⟨number, job, jobAt, listed⟩
    · rintro ⟨number, job, jobAt, listed⟩
      exact ⟨job, List.mem_of_getElem? jobAt, listed⟩
  · intro group member state listed
    obtain ⟨position, groupAt⟩ := List.mem_iff_getElem?.mp member
    obtain ⟨jobs, jobsAt, cluster, statesIff⟩ := Workload.exists_jobGroup groupAt
    obtain ⟨job, inside, holds⟩ := (statesIff state).mp listed
    rw [cluster, represents.stateCluster holds]
    exact (Workload.jobGroups_uniform (List.mem_of_getElem? jobsAt) inside).symm
  · intro position otherPosition group otherGroup groupAt otherAt state listed other otherListed
      needs
    obtain ⟨jobs, jobsAt, _, statesIff⟩ := Workload.exists_jobGroup groupAt
    obtain ⟨otherJobs, otherJobsAt, _, otherIff⟩ := Workload.exists_jobGroup otherAt
    obtain ⟨job, inside, holds⟩ := (statesIff state).mp listed
    obtain ⟨otherJob, otherInside, otherHolds⟩ := (otherIff other).mp otherListed
    have leads := (represents.leads_iff_needs holds otherHolds).mpr needs
    obtain ⟨earlier, lower, found, foundAt, member⟩ :=
      Workload.leads_earlier_group jobsAt inside leads
    rw [← Workload.group_unique foundAt otherJobsAt member otherInside]
    exact lower

/-- Schedules are sound, and therefore no state of a group needs another of its group. -/
theorem schedule_sound {graph : Graph} (constructed : graph.Constructed)
    {chosen : List StateId} {groups : List Group}
    (scheduled : graph.schedule chosen = .ok groups)
    : graph.SoundSchedule chosen groups
      ∧ ∀ group ∈ groups,
          ∀ state ∈ group.states, ∀ other ∈ group.states, ¬ graph.Needs state other := by
  obtain ⟨work, represents, done, rfl⟩ := schedule_eq_ok constructed.edgesInside scheduled
  have sound := soundSchedule_groups represents done
  refine ⟨sound, ?_⟩
  intro group member state listed other otherListed needs
  obtain ⟨position, groupAt⟩ := List.mem_iff_getElem?.mp member
  have lower := sound.layered position position group group groupAt groupAt state listed other
    otherListed needs
  exact Nat.lt_irrefl position lower

-----------------------------------------------------------------------------------------
-- Two clusters, one of which waits for the other
-----------------------------------------------------------------------------------------

/-- A state that writes a variable and reads the sum of some others. -/
def sumState (name : String) (target : Nat) (reads : List Nat) : State where
  target := .var (.ofIndex target)
  role := .direct
  formula := .number ⟨0⟩ :: reads.flatMap fun read => [.var (.ofIndex read), .operator .add]
  name := name

/-- Two pairs of states and a link: `a2` reads `b1` through the link, and so does `b2` directly. -/
def pairsProgram : Program where
  model := ⟨["a1", "a2", "b1", "b2", "link"].map fun name =>
    ⟨name, ⟨false, true, false, false⟩, none⟩⟩
  registry :=
    [sumState "a1" 0 [], sumState "a2" 1 [4], sumState "b1" 2 [], sumState "b2" 3 [2],
      sumState "link" 4 [2]].foldl (fun registry state => (registry.add state).2) .empty

/-- The states `a1` and `a2`. -/
def firstPair : List StateId :=
  [.ofIndex 0, .ofIndex 1]

/-- The states `b1` and `b2`. -/
def secondPair : List StateId :=
  [.ofIndex 2, .ofIndex 3]

/-- Each pair is a cluster. -/
def pairsClusters : ClusterSet where
  clusters :=
    [⟨.ofIndex 0, [], [], [], [], [⟨.ofIndex 0, []⟩, ⟨.ofIndex 1, []⟩]⟩,
      ⟨.ofIndex 1, [], [], [], [], [⟨.ofIndex 2, []⟩, ⟨.ofIndex 3, []⟩]⟩]
  report := ClusterSet.empty.report

/-- The graph over the pairs and the link. -/
def pairsGraph : Graph :=
  (build pairsProgram .empty (some pairsClusters) pairsProgram.registry.ids).1.toOption.getD .empty

theorem pairsGraph_constructed : pairsGraph.Constructed := by
  have built
      : (build pairsProgram .empty (some pairsClusters) pairsProgram.registry.ids).1
        = .ok pairsGraph := by
    cbv
  exact constructed_of_build built

/-- The first pair waits for the second although it is listed first, and the pair that is listed
twice is computed once.
-/
theorem schedule_sound_pairs
    : pairsGraph.schedule (firstPair ++ secondPair ++ firstPair)
        = .ok
            [⟨some (.ofIndex 1), [.ofIndex 2]⟩, ⟨some (.ofIndex 1), [.ofIndex 3]⟩,
              ⟨some (.ofIndex 0), firstPair⟩]
      ∧ pairsGraph.SoundSchedule (firstPair ++ secondPair ++ firstPair)
          [⟨some (.ofIndex 1), [.ofIndex 2]⟩, ⟨some (.ofIndex 1), [.ofIndex 3]⟩,
            ⟨some (.ofIndex 0), firstPair⟩] := by
  have scheduled
      : pairsGraph.schedule (firstPair ++ secondPair ++ firstPair)
        = .ok
            [⟨some (.ofIndex 1), [.ofIndex 2]⟩, ⟨some (.ofIndex 1), [.ofIndex 3]⟩,
              ⟨some (.ofIndex 0), firstPair⟩] := by
    cbv
  exact ⟨scheduled, (schedule_sound pairsGraph_constructed scheduled).1⟩

end Graph

end StepPlan
