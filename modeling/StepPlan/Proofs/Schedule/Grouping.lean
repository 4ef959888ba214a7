import StepPlan.Proofs.Schedule.Progress

/-! Groups of issued jobs, made once the order of the jobs is known. All jobs of a group have one
membership, and none of them depends on another.
-/

namespace StepPlan.Workload

/-- Whether a job may join a group of jobs issued before it: the group has the job's cluster
membership and holds none of its dependencies.
-/
def joins (work : Workload) (group : List Nat) (job : Nat) : Bool :=
  (group.getLast?.map work.clusterOf) == some (work.clusterOf job)
    && (work.dependenciesOf job).all fun dependency => !group.contains dependency

/-- Adds an issued job to the latest group, which stands in front, or starts a new one. -/
def collect (work : Workload) (groups : List (List Nat)) (job : Nat) : List (List Nat) :=
  match groups with
  | [] => [[job]]
  | group :: earlier =>
      if work.joins group job then (group ++ [job]) :: earlier else [job] :: group :: earlier

/-- The issued jobs in groups. -/
def jobGroups (work : Workload) : List (List Nat) :=
  (work.order.foldl work.collect []).reverse

/-- The states of a group of jobs. -/
def toGroup (work : Workload) (group : List Nat) : Group :=
  ⟨group.head?.bind work.clusterOf, group.flatMap work.statesOf⟩

/-- The issued states in groups. -/
def groups (work : Workload) : List Group :=
  work.jobGroups.map work.toGroup

/-- The groups, latest first and none of them empty, hold the issued jobs in order. All jobs of a
group have the membership of its first one, and none depends on one that stands before it in
the group.
-/
structure Collected (work : Workload) (issued : List Nat) (groups : List (List Nat))
    : Prop where
  flatten : groups.reverse.flatten = issued
  inhabited : ∀ group ∈ groups, group ≠ []
  uniform
    : ∀ group ∈ groups,
        ∀ job ∈ group, group.head?.bind work.clusterOf = work.clusterOf job
  forward
    : ∀ group ∈ groups, group.Pairwise fun earlier later => ¬ work.DependsOn later earlier

/-- A job joins a group exactly when its last job has the same membership and the job depends on
nothing in the group.
-/
theorem joins_iff {work : Workload} {group : List Nat} {job : Nat}
    : work.joins group job = true
      ↔ (∃ last, group.getLast? = some last ∧ work.clusterOf last = work.clusterOf job)
        ∧ ∀ earlier ∈ group, ¬ work.DependsOn job earlier := by
  unfold joins DependsOn
  simp only [Bool.and_eq_true, beq_iff_eq, Option.map_eq_some_iff, List.all_eq_true,
    Bool.not_eq_true', List.contains_eq_mem, decide_eq_false_iff_not]
  refine and_congr_right fun _ => ⟨fun apart earlier member depends => ?_, ?_⟩
  · exact apart earlier depends member
  · intro apart dependency depends member
    exact apart dependency member depends

theorem collect_of_joins {work : Workload} {group : List Nat} {earlier : List (List Nat)}
    {job : Nat} (joining : work.joins group job = true)
    : work.collect (group :: earlier) job = (group ++ [job]) :: earlier :=
  if_pos joining

theorem collect_of_not_joins {work : Workload} {group : List Nat} {earlier : List (List Nat)}
    {job : Nat} (refused : work.joins group job ≠ true)
    : work.collect (group :: earlier) job = [job] :: group :: earlier :=
  if_neg refused

/-- A job may join the latest group if it belongs to the cluster of the group and depends on no job
in it.
-/
theorem Collected.join {work : Workload} {issued group : List Nat} {earlier : List (List Nat)}
    (collected : work.Collected issued (group :: earlier)) {job : Nat}
    (joining : work.joins group job = true)
    : work.Collected (issued ++ [job]) ((group ++ [job]) :: earlier) := by
  obtain ⟨⟨last, lastAt, membership⟩, apart⟩ := joins_iff.mp joining
  have flat : earlier.reverse.flatten ++ group = issued := by simpa using collected.flatten
  obtain ⟨_, inhabited⟩ := List.forall_mem_cons.mp collected.inhabited
  obtain ⟨uniformGroup, uniform⟩ := List.forall_mem_cons.mp collected.uniform
  obtain ⟨forwardGroup, forward⟩ := List.forall_mem_cons.mp collected.forward
  have lastMember := List.mem_of_getLast? lastAt
  have sameHead : (group ++ [job]).head? = group.head? := by
    cases group with
    | nil => exact absurd lastMember List.not_mem_nil
    | cons first rest => rfl
  refine ⟨by simp [← flat], ?_, ?_, ?_⟩
  · exact List.forall_mem_cons.mpr ⟨by simp, inhabited⟩
  · refine List.forall_mem_cons.mpr ⟨?_, uniform⟩
    rw [sameHead]
    refine List.forall_mem_append.mpr ⟨uniformGroup, List.forall_mem_singleton.mpr ?_⟩
    rw [← membership]
    exact uniformGroup last lastMember
  · refine List.forall_mem_cons.mpr ⟨?_, forward⟩
    refine List.pairwise_append.mpr ⟨forwardGroup, List.pairwise_singleton _ _, ?_⟩
    intro before inside other new
    rw [List.mem_singleton.mp new]
    exact apart before inside

/-- A job may always start a group of its own. -/
theorem Collected.begin {work : Workload} {issued : List Nat} {groups : List (List Nat)}
    (collected : work.Collected issued groups) (job : Nat)
    : work.Collected (issued ++ [job]) ([job] :: groups) := by
  refine ⟨by simp [← collected.flatten], ?_, ?_, ?_⟩
  · exact List.forall_mem_cons.mpr ⟨by simp, collected.inhabited⟩
  · exact List.forall_mem_cons.mpr ⟨by simp, collected.uniform⟩
  · exact List.forall_mem_cons.mpr ⟨List.pairwise_singleton _ _, collected.forward⟩

/-- One more issued job is collected correctly: it joins the latest group or starts a new one. -/
theorem Collected.collect {work : Workload} {issued : List Nat} {groups : List (List Nat)}
    (collected : work.Collected issued groups) (job : Nat)
    : work.Collected (issued ++ [job]) (work.collect groups job) := by
  cases groups with
  | nil => exact collected.begin job
  | cons group earlier =>
      by_cases joining : work.joins group job = true
      · rw [collect_of_joins joining]
        exact collected.join joining
      · rw [collect_of_not_joins joining]
        exact collected.begin job

/-- Whole orders are collected correctly, by induction on the jobs to come. -/
theorem Collected.foldl {work : Workload} {issued : List Nat} {groups : List (List Nat)}
    (collected : work.Collected issued groups) (coming : List Nat)
    : work.Collected (issued ++ coming) (coming.foldl work.collect groups) := by
  induction coming generalizing issued groups with
  | nil => simpa using collected
  | cons job rest ih => simpa using ih (collected.collect job)

theorem collected_nil (work : Workload) : work.Collected [] [] :=
  ⟨rfl, by simp, by simp, by simp⟩

theorem collected_foldl (work : Workload) (issued : List Nat)
    : work.Collected issued (issued.foldl work.collect []) := by
  simpa using work.collected_nil.foldl issued

theorem collected_order (work : Workload)
    : work.Collected work.order (work.order.foldl work.collect []) :=
  work.collected_foldl work.order

theorem jobGroups_flatten (work : Workload) : work.jobGroups.flatten = work.order :=
  work.collected_order.flatten

theorem jobGroups_ne_nil {work : Workload} {group : List Nat}
    (member : group ∈ work.jobGroups)
    : group ≠ [] :=
  work.collected_order.inhabited group (List.mem_reverse.mp member)

theorem jobGroups_uniform {work : Workload} {group : List Nat}
    (member : group ∈ work.jobGroups) {job : Nat} (inside : job ∈ group)
    : group.head?.bind work.clusterOf = work.clusterOf job :=
  work.collected_order.uniform group (List.mem_reverse.mp member) job inside

end StepPlan.Workload
