import Mathlib.Data.List.Forall2
import StepPlan.Proofs.Graph.Wiring
import StepPlan.Proofs.Schedule.Queues

/-! A schedule does not depend on how the nodes of a graph are numbered. The order of jobs is read
off their dependencies, memberships and states alone. Two graphs whose nodes are matched by their
keys give the same jobs with the same dependencies, so they give the same groups.
-/

namespace StepPlan

open List Relation

-----------------------------------------------------------------------------------------
-- The order of jobs does not look at nodes
-----------------------------------------------------------------------------------------

namespace Workload

/-- The same work with no trace of the nodes that its jobs belong to. -/
def unplaced (work : Workload) : Workload :=
  ⟨work.jobs.map fun job => { job with node := 0 }, work.dependencies⟩

@[simp] theorem size_unplaced (work : Workload) : work.unplaced.size = work.size := by
  simp [unplaced, size]

@[simp] theorem dependenciesOf_unplaced (work : Workload)
    : work.unplaced.dependenciesOf = work.dependenciesOf :=
  rfl

@[simp] theorem clusterOf_unplaced (work : Workload)
    : work.unplaced.clusterOf = work.clusterOf := by
  funext job
  simp only [unplaced, clusterOf, List.getElem?_map]
  cases work.jobs[job]? <;> rfl

@[simp] theorem statesOf_unplaced (work : Workload)
    : work.unplaced.statesOf = work.statesOf := by
  funext job
  simp [unplaced, statesOf, Function.comp_def]

@[simp] theorem clusters_unplaced (work : Workload)
    : work.unplaced.clusters = work.clusters := by
  simp [unplaced, clusters, List.filterMap_map]

end Workload

namespace Progress

@[simp] theorem awaited_unplaced (work : Workload) (progress : Progress)
    : progress.awaited work.unplaced = progress.awaited work :=
  rfl

@[simp] theorem choose?_unplaced (work : Workload) (progress : Progress)
    : progress.choose? work.unplaced = progress.choose? work := by
  have contained : progress.selfContained work.unplaced = progress.selfContained work := by
    funext cluster
    simp [selfContained]
  simp [choose?, currentCluster?, hasReady, contained]

@[simp] theorem next?_unplaced (work : Workload) (progress : Progress)
    : progress.next? work.unplaced = progress.next? work := by
  simp [next?]

@[simp] theorem issue_unplaced (work : Workload) (progress : Progress) (job : Nat)
    : progress.issue work.unplaced job = progress.issue work job := by
  simp [issue]

@[simp] theorem drain_unplaced (work : Workload) (steps : Nat) (progress : Progress)
    : drain work.unplaced steps progress = drain work steps progress := by
  induction steps generalizing progress with
  | zero => rfl
  | succ steps ih => simp [drain, ih]

end Progress

namespace Workload

@[simp] theorem order_unplaced (work : Workload) : work.unplaced.order = work.order := by
  simp [order, Progress.start]

theorem left_unplaced (work : Workload) : work.unplaced.left = work.left := by
  simp [left]

theorem groups_unplaced (work : Workload) : work.unplaced.groups = work.groups := by
  have collected : work.unplaced.collect = work.collect := by
    funext groups job
    simp [collect, joins]
  have stated : work.unplaced.toGroup = work.toGroup := by
    funext group
    simp [toGroup]
  simp [groups, jobGroups, collected, stated]

end Workload

-----------------------------------------------------------------------------------------
-- Nodes that are matched by their keys
-----------------------------------------------------------------------------------------

namespace Graph

variable {graph other : Graph}

/-- A node of one graph and a node of another have the same key. -/
def Aligned (graph other : Graph) (node counterpart : Nat) : Prop :=
  ∃ key, graph.keys[node]? = some key ∧ other.keys[counterpart]? = some key

theorem Aligned.symm {node counterpart : Nat} (aligned : graph.Aligned other node counterpart)
    : other.Aligned graph counterpart node := by
  obtain ⟨key, here, there⟩ := aligned
  exact ⟨key, there, here⟩

/-- Entries of the same state with the same membership at aligned nodes. -/
structure SameEntry (graph other : Graph) (entry counterpart : Entry) : Prop where
  node : graph.Aligned other entry.node counterpart.node
  cluster : entry.cluster = counterpart.cluster
  state : entry.state = counterpart.state

/-- (graph.Follows other) means that each edge and each entry of the other graph has its counterpart
in this one.
-/
structure Follows (graph other : Graph) : Prop where
  distinct : graph.keys.Nodup
  inside : graph.EdgesInside
  edge
    : ∀ node counterpart next,
        graph.Aligned other node counterpart
        → other.Edge counterpart next
        → ∃ dependency, graph.Edge node dependency ∧ graph.Aligned other dependency next
  entry
    : ∀ state counterpart,
        other.entry? state = some counterpart
        → ∃ entry, graph.entry? state = some entry ∧ SameEntry graph other entry counterpart

/-- Keys are distinct, so alignment matches each node with at most one. -/
theorem biUnique_aligned (forth : graph.Follows other) (back : other.Follows graph)
    : Relator.BiUnique (graph.Aligned other) := by
  constructor
  · intro first second counterpart ⟨key, here, there⟩ ⟨otherKey, otherHere, otherThere⟩
    obtain ⟨bound, _⟩ := List.getElem?_eq_some_iff.mp here
    refine (List.getElem?_inj bound forth.distinct).mp ?_
    rw [here, otherHere, ← there, ← otherThere]
  · intro node first second ⟨key, here, there⟩ ⟨otherKey, otherHere, otherThere⟩
    obtain ⟨bound, _⟩ := List.getElem?_eq_some_iff.mp there
    refine (List.getElem?_inj bound back.distinct).mp ?_
    rw [there, otherThere, ← here, ← otherHere]

end Graph

namespace Workload

variable {graph other : Graph}

theorem mem_onward_iff {chosen : List Nat} {node next : Nat}
    : next ∈ onward graph chosen node ↔ node ∉ chosen ∧ graph.Edge node next := by
  unfold onward
  split <;> simp_all [Graph.Edge]

/-- Whatever a search meets, a search from the counterpart meets in a graph that follows. By
induction on the path from its end.
-/
theorem exists_mem_nearby (forth : graph.Follows other) (inside : other.EdgesInside)
    {chosen others : List Nat}
    (same
      : ∀ node counterpart,
          graph.Aligned other node counterpart → (node ∈ chosen ↔ counterpart ∈ others))
    {origin start met : Nat} (aligned : graph.Aligned other origin start)
    (member : met ∈ nearby other others start)
    : ∃ node ∈ nearby graph chosen origin, graph.Aligned other node met := by
  obtain ⟨first, edge, walk⟩ := (mem_nearby_iff inside others start met).mp member
  simp only [mem_nearby_iff forth.inside]
  induction walk with
  | refl =>
      obtain ⟨near, nearEdge, nearAligned⟩ := forth.edge origin start first aligned edge
      exact ⟨near, ⟨near, nearEdge, .refl⟩, nearAligned⟩
  | @tail last next walked step ih =>
      obtain ⟨absent, lastEdge⟩ := mem_onward_iff.mp step
      obtain ⟨node, ⟨near, nearEdge, path⟩, nodeAligned⟩ :=
        ih ((mem_nearby_iff inside others start last).mpr ⟨first, edge, walked⟩)
      obtain ⟨dependency, further, nextAligned⟩ := forth.edge node last next nodeAligned lastEdge
      have onward := mem_onward_iff.mpr ⟨mt (same node last nodeAligned).mp absent, further⟩
      exact ⟨dependency, ⟨near, nearEdge, path.tail onward⟩, nextAligned⟩

/-- Jobs of the same states with the same membership at aligned nodes. -/
structure SameJob (graph other : Graph) (job counterpart : Job) : Prop where
  node : graph.Aligned other job.node counterpart.node
  cluster : job.cluster = counterpart.cluster
  states : job.states = counterpart.states

variable {jobs others : List Job}

theorem matches_iff (unique : Relator.BiUnique (graph.Aligned other)) {job counterpart : Job}
    (same : SameJob graph other job counterpart) {entry found : Entry}
    (sameEntry : Graph.SameEntry graph other entry found)
    : Matches job entry ↔ Matches counterpart found := by
  have nodes : job.node = entry.node ↔ counterpart.node = found.node :=
    Relator.rel_eq unique same.node sameEntry.node
  rw [Matches, Matches, nodes, same.cluster, sameEntry.cluster]

/-- One more entry is enlisted in the same way on both sides. -/
theorem forall₂_enlist (unique : Relator.BiUnique (graph.Aligned other)) {entry found : Entry}
    (same : Forall₂ (SameJob graph other) jobs others)
    (sameEntry : Graph.SameEntry graph other entry found)
    : Forall₂ (SameJob graph other) (enlist jobs entry) (enlist others found) := by
  have joined : (jobs.any fun job => job.node = entry.node && job.cluster = entry.cluster)
      = others.any fun job => job.node = found.node && job.cluster = found.cluster := by
    induction same with
    | nil => rfl
    | cons head _ ih =>
        have matching := matches_iff unique head sameEntry
        simp only [Matches] at matching
        rw [List.any_cons, List.any_cons, ih, ← Bool.decide_and, ← Bool.decide_and,
          decide_eq_decide.mpr matching]
  unfold enlist
  rw [joined]
  split
  · refine List.rel_map (fun job counterpart sameJob => ?_) same
    have matching := matches_iff unique sameJob sameEntry
    simp only [Matches] at matching
    simp only [← and_assoc, matching, sameJob.states, sameEntry.state]
    split
    · exact ⟨sameJob.node, sameJob.cluster, rfl⟩
    · exact sameJob
  · refine List.rel_append same (.cons ⟨sameEntry.node, sameEntry.cluster, ?_⟩ .nil)
    rw [sameEntry.state]

theorem forall₂_jobs (unique : Relator.BiUnique (graph.Aligned other)) {entries found : List Entry}
    (same : Forall₂ (Graph.SameEntry graph other) entries found)
    : Forall₂ (SameJob graph other) (entries.foldl enlist []) (found.foldl enlist []) := by
  refine List.rel_foldl ?_ .nil same
  intro jobs others sameJobs entry counterpart sameEntry
  exact forall₂_enlist unique sameJobs sameEntry

/-- A node is near a job exactly when its counterpart is near the counterpart of the job. -/
theorem mem_nearby_iff_of_aligned (forth : graph.Follows other) (back : other.Follows graph)
    (same : Forall₂ (SameJob graph other) jobs others) {origin start node met : Nat}
    (starts : graph.Aligned other origin start) (aligned : graph.Aligned other node met)
    : node ∈ nearby graph (jobs.map Job.node) origin
      ↔ met ∈ nearby other (others.map Job.node) start := by
  have unique := Graph.biUnique_aligned forth back
  have chosen : ∀ node met, graph.Aligned other node met
      → (node ∈ jobs.map Job.node ↔ met ∈ others.map Job.node) := fun node met aligned =>
    List.rel_mem unique aligned (List.rel_map (fun _ _ sameJob => sameJob.node) same)
  constructor
  · intro member
    obtain ⟨counterpart, near, counterpartAligned⟩ := exists_mem_nearby back forth.inside
      (fun met node aligned => (chosen node met aligned.symm).symm) starts.symm member
    rw [unique.2 aligned counterpartAligned.symm]
    exact near
  · intro member
    obtain ⟨counterpart, near, counterpartAligned⟩ :=
      exists_mem_nearby forth back.inside chosen starts member
    rw [unique.1 aligned counterpartAligned]
    exact near

theorem jobDependencies_eq (forth : graph.Follows other) (back : other.Follows graph)
    (same : Forall₂ (SameJob graph other) jobs others) {job counterpart : Job}
    (sameJob : SameJob graph other job counterpart)
    : jobDependencies graph jobs job = jobDependencies other others counterpart := by
  have length := same.length_eq
  unfold jobDependencies
  rw [length]
  refine List.filter_congr fun number member => ?_
  have bound := List.mem_range.mp member
  have sameNumber := same.get (length ▸ bound) bound
  simp only [List.get_eq_getElem] at sameNumber
  rw [List.getElem?_eq_getElem (length ▸ bound), List.getElem?_eq_getElem bound]
  have near := mem_nearby_iff_of_aligned forth back same sameJob.node sameNumber.node
  simp only [List.contains_eq_mem, near]

/-- The entries of the chosen states are found in both graphs, or the same state is unknown in
both. By induction on the chosen states.
-/
theorem forall₂_entries (forth : graph.Follows other) (back : other.Follows graph)
    (chosen : List StateId)
    : (∃ found counterparts,
        entries graph chosen = .ok found
        ∧ entries other chosen = .ok counterparts
        ∧ Forall₂ (Graph.SameEntry graph other) found counterparts)
      ∨ ∃ unknown,
          entries graph chosen = .error (.unknownState unknown)
          ∧ entries other chosen = .error (.unknownState unknown) := by
  induction chosen with
  | nil => exact Or.inl ⟨[], [], rfl, rfl, .nil⟩
  | cons state rest ih =>
      unfold entries Graph.entry
      cases known : other.entry? state with
      | none =>
          have missing : graph.entry? state = none := by
            rw [Option.eq_none_iff_forall_ne_some]
            intro entry found
            obtain ⟨counterpart, there, _⟩ := back.entry state entry found
            cases known.symm.trans there
          simp only [missing]
          exact Or.inr ⟨state, rfl, rfl⟩
      | some counterpart =>
          obtain ⟨entry, here, sameEntry⟩ := forth.entry state counterpart known
          simp only [here]
          rcases ih with ⟨found, counterparts, hereAll, thereAll, same⟩ | ⟨unknown, here, there⟩
          · simp only [hereAll, thereAll]
            exact Or.inl ⟨_, _, rfl, rfl, .cons sameEntry same⟩
          · simp only [here, there]
            exact Or.inr ⟨unknown, rfl, rfl⟩

theorem unplaced_eq (forth : graph.Follows other) (back : other.Follows graph)
    (same : Forall₂ (SameJob graph other) jobs others)
    : unplaced ⟨jobs, jobs.map (jobDependencies graph jobs)⟩
      = unplaced ⟨others, others.map (jobDependencies other others)⟩ := by
  have map_eq : ∀ {α : Type} {f g : Job → α},
      (∀ job counterpart, SameJob graph other job counterpart → f job = g counterpart)
      → jobs.map f = others.map g := by
    intro α f g equal
    rw [← List.forall₂_eq_eq_eq]
    exact List.rel_map equal same
  refine congrArg₂ Workload.mk (map_eq fun job counterpart sameJob => ?_) (map_eq ?_)
  · rw [sameJob.cluster, sameJob.states]
  · exact fun job counterpart sameJob => jobDependencies_eq forth back same sameJob

end Workload

/-- (Graph.SameOutcome outcome other) means that two schedules have the same groups, or that both
fail for a cycle, or both for the same unknown state.
-/
inductive Graph.SameOutcome : Except Error (List Group) → Except Error (List Group) → Prop
  | groups (groups : List Group) : SameOutcome (.ok groups) (.ok groups)
  | cycle (left otherLeft cycle otherCycle : List String)
    : SameOutcome (.error (.cycleDetected left cycle))
        (.error (.cycleDetected otherLeft otherCycle))
  | unknown (state : StateId)
    : SameOutcome (.error (.unknownState state)) (.error (.unknownState state))

/-- Graphs that follow each other have the same schedules. -/
theorem Graph.schedule_sameOutcome {graph other : Graph} (forth : graph.Follows other)
    (back : other.Follows graph) (chosen : List StateId)
    : SameOutcome (graph.schedule chosen) (other.schedule chosen) := by
  rcases Workload.forall₂_entries forth back chosen with
    ⟨found, counterparts, here, there, same⟩ | ⟨unknown, here, there⟩
  · have sameJobs := Workload.forall₂_jobs (biUnique_aligned forth back) same
    have unplaced := Workload.unplaced_eq forth back sameJobs
    have left := congrArg Workload.left unplaced
    have groups := congrArg Workload.groups unplaced
    rw [Workload.left_unplaced, Workload.left_unplaced] at left
    rw [Workload.groups_unplaced, Workload.groups_unplaced] at groups
    have made := Workload.ofStates_of_entries here
    have otherMade := Workload.ofStates_of_entries there
    rw [schedule, schedule]
    rcases scheduleBy_of_made ComponentSearch.depthFirst made with ⟨done, ok⟩ | ⟨behind, failed⟩
    · rw [ok, scheduleBy_of_done _ otherMade (left ▸ done), groups]
      exact .groups _
    · rw [failed, scheduleBy_of_left _ otherMade (left ▸ behind)]
      exact .cycle _ _ _ _
  · have failed : Workload.ofStates graph chosen = .error (.unknownState unknown) := by
      rw [Workload.ofStates, here]
    have otherFailed : Workload.ofStates other chosen = .error (.unknownState unknown) := by
      rw [Workload.ofStates, there]
    rw [schedule, schedule, scheduleBy_of_error _ failed, scheduleBy_of_error _ otherFailed]
    exact .unknown unknown

end StepPlan
