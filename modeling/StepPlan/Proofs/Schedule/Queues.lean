import StepPlan.Proofs.Distinct
import StepPlan.Proofs.Schedule.Grouping

/-! The counts and queues of a run, read off the order. At every moment a job counts those of its
dependencies that are not issued, the queue of a rank is the part of the line with that rank, and
the group of a job is the one in which it is collected. A step of the run issues the job that is
next in the line, so the run ends with the groups of the whole order and leaves the same jobs.
-/

namespace StepPlan

-----------------------------------------------------------------------------------------
-- Tables over numbers
-----------------------------------------------------------------------------------------

theorem modify_map_range {α : Type} (count : Nat) (entry : Nat → α) (place : Nat)
    (change : α → α)
    : ((List.range count).map entry).modify place change
      = (List.range count).map fun number =>
          if number = place then change (entry number) else entry number := by
  refine List.ext_getElem (by simp) fun number _ _ => ?_
  simp [List.getElem_modify, eq_comm]

theorem set_map_range {α : Type} (count : Nat) (entry : Nat → α) (place : Nat) (value : α)
    : ((List.range count).map entry).set place value
      = (List.range count).map fun number => if number = place then value else entry number := by
  refine List.ext_getElem (by simp) fun number _ _ => ?_
  simp [List.getElem_set, eq_comm]

theorem getElem?_map_range {α : Type} {count : Nat} (entry : Nat → α) {number : Nat}
    (known : number < count)
    : ((List.range count).map entry)[number]? = some (entry number) := by
  simp [known]

theorem modify_concat {α : Type} (items : List α) (last : α) (change : α → α)
    : (items ++ [last]).modify items.length change = items ++ [change last] := by
  induction items with
  | nil => rfl
  | cons item rest ih => simpa using ih

-----------------------------------------------------------------------------------------
-- Ranks
-----------------------------------------------------------------------------------------

namespace Workload

variable (work : Workload)

theorem rankOf_lt (job : Nat) : work.rankOf job < work.clusters.length + 1 := by
  unfold rankOf
  cases membership : work.clusterOf job with
  | none => exact Nat.succ_pos _
  | some cluster =>
      have inside := List.idxOf_lt_length_of_mem (Progress.mem_clusters membership)
      exact Nat.succ_lt_succ inside

/-- Different memberships have different ranks. -/
theorem rankOf_eq_rank_iff (job : Nat) (membership : Option ClusterId)
    : work.rankOf job = work.rank membership ↔ work.clusterOf job = membership := by
  refine ⟨fun same => ?_, fun same => congrArg work.rank same⟩
  unfold rankOf at same
  cases here : work.clusterOf job with
  | none =>
      cases membership with
      | none => rfl
      | some cluster => simp [here, rank] at same
  | some cluster =>
      cases membership with
      | none => simp [here, rank] at same
      | some other =>
          rw [here, rank, rank, Nat.succ_inj] at same
          exact congrArg some ((List.idxOf_inj (Progress.mem_clusters here)).mp same)

theorem rankOf_eq_rankOf_iff (job other : Nat)
    : work.rankOf job = work.rankOf other ↔ work.clusterOf job = work.clusterOf other :=
  work.rankOf_eq_rank_iff job (work.clusterOf other)

/-- The ranks of the clusters are the numbers behind zero, in order. -/
theorem map_rank_clusters
    : work.clusters.map (fun cluster => work.rank (some cluster))
      = (List.range work.clusters.length).map Nat.succ := by
  refine List.ext_getElem (by simp) fun position known _ => ?_
  have inside : position < work.clusters.length := by simpa using known
  have unique : work.clusters.Nodup := nodup_eraseDups _
  simpa [rank] using unique.idxOf_getElem position inside

/-- A line of jobs, divided into one queue for each rank. -/
def byRank (line : List Nat) : List (List Nat) :=
  (List.range (work.clusters.length + 1)).map fun rank =>
    line.filter fun job => work.rankOf job == rank

theorem getElem?_byRank (line : List Nat) {rank : Nat} (known : rank < work.clusters.length + 1)
    : (work.byRank line)[rank]? = some (line.filter fun job => work.rankOf job == rank) :=
  getElem?_map_range _ known

/-- A rank that no job can have has no queue, and no job of the line either. -/
theorem getD_byRank (line : List Nat) (rank : Nat)
    : (work.byRank line)[rank]?.getD [] = line.filter fun job => work.rankOf job == rank := by
  by_cases known : rank < work.clusters.length + 1
  · rw [work.getElem?_byRank line known, Option.getD_some]
  · have none : (work.byRank line)[rank]? = none := by simpa [byRank] using known
    rw [none, Option.getD_none, eq_comm, List.filter_eq_nil_iff]
    intro job _ same
    exact known ((beq_iff_eq.mp same) ▸ work.rankOf_lt job)

theorem enqueue_byRank (line : List Nat) (job : Nat)
    : Queues.enqueue work (work.byRank line) job = work.byRank (line ++ [job]) := by
  unfold Queues.enqueue byRank
  rw [modify_map_range]
  refine List.map_congr_left fun rank _ => ?_
  by_cases same : work.rankOf job = rank
  · simp [same]
  · simp [same, Ne.symm same]

theorem foldl_enqueue_byRank (line jobs : List Nat)
    : jobs.foldl (Queues.enqueue work) (work.byRank line) = work.byRank (line ++ jobs) := by
  induction jobs generalizing line with
  | nil => simp
  | cons job rest ih => rw [List.foldl_cons, work.enqueue_byRank, ih, ← List.append_cons]

/-- The first job of a queue is the first of its rank in the line, and leaves the line with it. -/
theorem set_byRank {line rest : List Nat} {job : Nat}
    (queue : (line.filter fun other => work.rankOf other == work.rankOf job) = job :: rest)
    : (work.byRank line).set (work.rankOf job) rest = work.byRank (line.erase job) := by
  unfold byRank
  rw [set_map_range]
  refine List.map_congr_left fun rank _ => ?_
  rw [← List.erase_filter]
  split
  · rename_i same
    rw [same, queue, List.erase_cons_head]
  · rename_i different
    refine (List.erase_of_not_mem fun member => different ?_).symm
    exact (beq_iff_eq.mp (List.mem_filter.mp member).2).symm

end Workload

-----------------------------------------------------------------------------------------
-- The choice of the next job
-----------------------------------------------------------------------------------------

namespace Progress

/-- The run at the moment when these jobs are issued and ready. -/
def queues (work : Workload) (progress : Progress) : Queues where
  pending := (List.range work.size).map fun job => (progress.awaited work job).length
  ready := work.byRank progress.ready
  groups := (progress.issued.foldl work.collect []).reverse.map work.toGroup
  groupOf :=
    (List.range work.size).map fun job =>
      (progress.issued.foldl work.collect []).reverse.findIdx? fun group => group.contains job
  current := progress.issued.getLast?.map work.rankOf
  emitted := progress.issued.length

variable (work : Workload) (progress : Progress)

/-- A job is in no group exactly when it is not issued. -/
theorem isLeft_queues (job : Nat)
    : (progress.queues work).isLeft job
      = (decide (job < work.size) && !progress.issued.contains job) := by
  unfold Queues.isLeft queues
  by_cases known : job < work.size
  · rw [getElem?_map_range _ known, Bool.eq_iff_iff]
    have issued := (work.collected_foldl progress.issued).flatten
    have inside : job ∈ progress.issued
        ↔ ∃ group ∈ (progress.issued.foldl work.collect []).reverse, job ∈ group := by
      conv_lhs => rw [← issued]
      exact List.mem_flatten
    simp only [beq_iff_eq, Option.some.injEq, List.findIdx?_eq_none_iff, known, decide_true,
      Bool.true_and, Bool.not_eq_true', List.contains_eq_mem, decide_eq_false_iff_not, inside,
      not_exists, not_and]
  · simp [known]

theorem hasReady_queues (membership : Option ClusterId)
    : (progress.queues work).hasReady (work.rank membership)
      = progress.hasReady work membership := by
  rw [Bool.eq_iff_iff, hasReady_iff]
  unfold Queues.hasReady queues
  rw [work.getD_byRank]
  simp [List.filter_eq_nil_iff, work.rankOf_eq_rank_iff]

theorem selfContained_queues (bounded : work.Bounded) (cluster : ClusterId)
    : (progress.queues work).selfContained work (work.rank (some cluster))
      = progress.selfContained work cluster := by
  have member (job : Nat)
      : (work.rankOf job == work.rank (some cluster))
        = decide (work.clusterOf job = some cluster) := by
    rw [Bool.eq_iff_iff, beq_iff_eq, decide_eq_true_eq, work.rankOf_eq_rank_iff]
  have awaited (job : Nat)
      : (work.dependenciesOf job).filter (progress.queues work).isLeft
        = progress.awaited work job := by
    refine List.filter_congr fun dependency depends => ?_
    simp [isLeft_queues, (bounded job dependency depends).2]
  have left
      : ((List.range work.size).filter fun job =>
          decide (work.clusterOf job = some cluster) && (progress.queues work).isLeft job)
        = (List.range work.size).filter fun job =>
            decide (work.clusterOf job = some cluster) && !progress.issued.contains job := by
    refine List.filter_congr fun job known => ?_
    simp [isLeft_queues, List.mem_range.mp known]
  unfold Queues.selfContained selfContained
  simp only [member, awaited, left]

/-- The rank of the last job counts exactly when it is that of a cluster. -/
theorem filter_current_queues
    : ((progress.queues work).current.filter fun rank =>
        rank != 0 && (progress.queues work).hasReady rank)
      = ((progress.currentCluster? work).filter fun cluster =>
          progress.hasReady work (some cluster)).map fun cluster => work.rank (some cluster) := by
  have ready (cluster : ClusterId) := hasReady_queues work progress (some cluster)
  unfold currentCluster?
  change Option.filter _ (progress.issued.getLast?.map work.rankOf) = _
  cases progress.issued.getLast? with
  | none => rfl
  | some job =>
      simp only [Option.map_some, Option.bind_some, Workload.rankOf]
      cases work.clusterOf job with
      | none => simp [Workload.rank, Option.filter]
      | some cluster =>
          have positive : (work.rank (some cluster) != 0) = true := by simp [Workload.rank]
          simp only [Option.filter, positive, Bool.true_and, ready]
          split <;> rfl

/-- While nothing without a cluster is ready, the ranks with a queue are those of the clusters in
line.
-/
theorem filter_hasReady_queues (clustered : progress.hasReady work none = false)
    : (List.range (progress.queues work).ready.length).filter (progress.queues work).hasReady
      = (work.clusters.filter fun cluster => progress.hasReady work (some cluster)).map
          fun cluster => work.rank (some cluster) := by
  have length : (progress.queues work).ready.length = work.clusters.length + 1 := by
    simp [queues, Workload.byRank]
  have unclustered : ¬ (progress.queues work).hasReady 0 = true :=
    ne_true_of_eq_false ((hasReady_queues work progress none).trans clustered)
  rw [length, List.range_succ_eq_map, List.filter_cons_of_neg unclustered,
    ← work.map_rank_clusters, List.filter_map]
  refine congrArg _ (List.filter_congr fun cluster _ => ?_)
  exact hasReady_queues work progress (some cluster)

/-- The rank that is picked is that of the membership that is chosen. -/
theorem pickRank?_queues (bounded : work.Bounded)
    : (progress.queues work).pickRank? work = (progress.choose? work).map work.rank := by
  unfold Queues.pickRank? choose?
  rw [filter_current_queues]
  cases (progress.currentCluster? work).filter fun cluster =>
      progress.hasReady work (some cluster) with
  | some cluster => rfl
  | none =>
      have unclustered : (progress.queues work).hasReady 0 = progress.hasReady work none :=
        hasReady_queues work progress none
      simp only [Option.map_none, unclustered]
      by_cases ready : progress.hasReady work none = true
      · rw [if_pos ready, if_pos ready]
        rfl
      · have clustered : progress.hasReady work none = false := by simpa using ready
        have contained
            : (progress.queues work).selfContained work ∘ (fun cluster => work.rank (some cluster))
              = progress.selfContained work :=
          funext fun cluster => selfContained_queues work progress bounded cluster
        rw [if_neg ready, if_neg ready, filter_hasReady_queues work progress clustered,
          List.find?_map, contained, List.head?_map]
        cases (work.clusters.filter fun cluster => progress.hasReady work (some cluster)).find?
          (progress.selfContained work) <;> simp [Function.comp_def]

/-- The first job in the queue of the chosen membership is the first of them in the line. -/
theorem take?_queues {membership : Option ClusterId} {job : Nat}
    (first : (progress.ready.find? fun other => work.clusterOf other = membership) = some job)
    : (progress.queues work).take? (work.rank membership)
      = some (job, queues work ⟨progress.issued, progress.ready.erase job⟩) := by
  have same : work.rankOf job = work.rank membership :=
    (work.rankOf_eq_rank_iff job membership).mpr (by simpa using List.find?_some first)
  have head : (progress.ready.filter fun other => work.rankOf other == work.rankOf job).head?
      = some job := by
    rw [List.head?_filter, ← first]
    refine congrArg (List.find? · _) (funext fun other => ?_)
    rw [Bool.eq_iff_iff, beq_iff_eq, decide_eq_true_eq, same, work.rankOf_eq_rank_iff]
  obtain ⟨rest, queue⟩ := List.head?_eq_some_iff.mp head
  have found : (progress.queues work).ready[work.rankOf job]? = some (job :: rest) :=
    (work.getElem?_byRank progress.ready (work.rankOf_lt job)).trans (congrArg some queue)
  have left : queues work ⟨progress.issued, progress.ready.erase job⟩
      = { progress.queues work with
          ready := (progress.queues work).ready.set (work.rankOf job) rest } := by
    unfold queues
    rw [work.set_byRank queue]
    rfl
  rw [← same, Queues.take?, found, left]

end Progress

-----------------------------------------------------------------------------------------
-- Placing a job
-----------------------------------------------------------------------------------------

/-- The place of a job among groups, of which the last gets one more job. -/
theorem findIdx?_join {groups : List (List Nat)} {job : Nat} (fresh : job ∉ groups.flatten)
    (group : List Nat) (other : Nat)
    : ((groups ++ [group ++ [job]]).findIdx? fun group => group.contains other)
      = if other = job then some groups.length
        else (groups ++ [group]).findIdx? fun group => group.contains other := by
  rw [List.findIdx?_append, List.findIdx?_append]
  split
  · rename_i same
    have none : (groups.findIdx? fun group => group.contains other) = none := by
      rw [List.findIdx?_eq_none_iff]
      intro group member
      rw [List.contains_eq_mem, decide_eq_false_iff_not, same]
      exact fun inside => fresh (List.mem_flatten_of_mem member inside)
    rw [none, same]
    simp
  · rename_i different
    simp [List.findIdx?_cons, different]

/-- A job is in the last group exactly when that is the first to hold it. -/
theorem findIdx?_eq_last {groups : List (List Nat)} {group : List Nat}
    (unique : (groups.flatten ++ group).Nodup) (job : Nat)
    : ((groups ++ [group]).findIdx? fun group => group.contains job) = some groups.length
      ↔ job ∈ group := by
  rw [List.findIdx?_eq_some_iff_getElem]
  constructor
  · rintro ⟨_, inside, _⟩
    simpa using inside
  · intro inside
    refine ⟨by simp, by simpa using inside, fun position lower held => ?_⟩
    rw [List.getElem_append_left lower, List.contains_iff_mem] at held
    have earlier := List.mem_flatten_of_mem (List.getElem_mem lower) held
    exact (List.nodup_append.mp unique).2.2 job earlier job inside rfl

namespace Progress

variable {work : Workload} {issued : List Nat} (line : List Nat) (job : Nat)

/-- A job joins the last group as it is collected. The rank of the last job stands for the
membership of the group.
-/
theorem joins_queues (bounded : work.Bounded) (unique : issued.Nodup) {group : List Nat}
    {earlier : List (List Nat)} (collected : issued.foldl work.collect [] = group :: earlier)
    : (queues work ⟨issued, line⟩).joins work (work.rankOf job) job = work.joins group job := by
  have facts := collected ▸ work.collected_foldl issued
  have flat : earlier.reverse.flatten ++ group = issued := by simpa using facts.flatten
  have last : issued.getLast? = group.getLast? := by
    rw [← flat, List.getLast?_append_of_ne_nil _ (facts.inhabited group List.mem_cons_self)]
  have current : (issued.getLast?.map work.rankOf == some (work.rankOf job))
      = (group.getLast?.map work.clusterOf == some (work.clusterOf job)) := by
    rw [last, Bool.eq_iff_iff]
    simp [work.rankOf_eq_rankOf_iff]
  have held : ∀ dependency ∈ work.dependenciesOf job,
      ((queues work ⟨issued, line⟩).groupOf[dependency]? == some (some earlier.length))
      = group.contains dependency := by
    intro dependency depends
    have known := (bounded job dependency depends).2
    have inside := findIdx?_eq_last (flat ▸ unique) dependency
    rw [List.length_reverse] at inside
    rw [queues, getElem?_map_range _ known, collected, Bool.eq_iff_iff]
    simpa using inside
  have length : (queues work ⟨issued, line⟩).groups.length = earlier.length + 1 := by
    simp [queues, collected]
  have apart : (!(work.dependenciesOf job).any fun dependency =>
        (queues work ⟨issued, line⟩).groupOf[dependency]? == some (some earlier.length))
      = (work.dependenciesOf job).all fun dependency => !group.contains dependency := by
    rw [List.not_any_eq_all_not, Bool.eq_iff_iff, List.all_eq_true, List.all_eq_true]
    exact forall₂_congr fun dependency depends => by rw [held dependency depends]
  rw [Queues.joins, length, Workload.joins, ← current, ← apart]
  rfl

/-- (Enters work issued line job groups group) means that a job is collected behind the given jobs
of a group, which stands behind the given groups, and that the run places it there. The group is new
if there are no such jobs.
-/
structure Enters (work : Workload) (issued line : List Nat) (job : Nat) (groups : List (List Nat))
    (group : List Nat)
    : Prop where
  flatten : groups.flatten ++ group = issued
  collected : ((issued ++ [job]).foldl work.collect []).reverse = groups ++ [group ++ [job]]
  opened
    : (if (queues work ⟨issued, line⟩).joins work (work.rankOf job) job then
        (queues work ⟨issued, line⟩).groups
      else (queues work ⟨issued, line⟩).groups ++ [⟨work.clusterOf job, []⟩])
      = groups.map work.toGroup
        ++ [⟨(group ++ [job]).head?.bind work.clusterOf, group.flatMap work.statesOf⟩]
  places
    : ∀ other,
        ((issued.foldl work.collect []).reverse.findIdx? fun group => group.contains other)
        = (groups ++ [group]).findIdx? fun group => group.contains other

theorem foldl_collect_concat (work : Workload) (issued : List Nat) (job : Nat)
    : (issued ++ [job]).foldl work.collect []
      = work.collect (issued.foldl work.collect []) job := by
  rw [List.foldl_append, List.foldl_cons, List.foldl_nil]

/-- A job that joins no group enters a new one. -/
theorem enters_new {line : List Nat} {job : Nat}
    (refused : (queues work ⟨issued, line⟩).joins work (work.rankOf job) job ≠ true)
    (after : (issued ++ [job]).foldl work.collect [] = [job] :: issued.foldl work.collect [])
    : Enters work issued line job (issued.foldl work.collect []).reverse [] where
  flatten := by rw [List.append_nil, (work.collected_foldl issued).flatten]
  collected := by rw [after, List.reverse_cons, List.nil_append]
  opened := by
    rw [if_neg refused]
    rfl
  places other := by simp [List.findIdx?_append]

/-- A job that joins the last group enters it. -/
theorem enters_last {line : List Nat} {job : Nat} {group : List Nat} {earlier : List (List Nat)}
    (collected : issued.foldl work.collect [] = group :: earlier)
    (joining : (queues work ⟨issued, line⟩).joins work (work.rankOf job) job = true)
    (after : (issued ++ [job]).foldl work.collect [] = (group ++ [job]) :: earlier)
    : Enters work issued line job earlier.reverse group := by
  have facts := collected ▸ work.collected_foldl issued
  obtain ⟨first, rest, same⟩ := List.exists_cons_of_ne_nil
    (facts.inhabited group List.mem_cons_self)
  refine ⟨by simpa using facts.flatten, ?_, ?_, fun other => ?_⟩
  · rw [after, List.reverse_cons]
  · rw [if_pos joining, queues, collected, List.reverse_cons, List.map_append, List.map_singleton,
      Workload.toGroup, same]
    rfl
  · rw [collected, List.reverse_cons]

theorem exists_enters (bounded : work.Bounded) (unique : issued.Nodup)
    : ∃ groups group, Enters work issued line job groups group := by
  have after := foldl_collect_concat work issued job
  cases collected : issued.foldl work.collect [] with
  | nil =>
      refine ⟨_, _, enters_new ?_ ?_⟩
      · simp [Queues.joins, queues, collected]
      · rw [after, collected]
        rfl
  | cons group earlier =>
      have joins := joins_queues line job bounded unique collected
      rw [collected] at after
      by_cases joining : work.joins group job = true
      · rw [Workload.collect_of_joins joining] at after
        exact ⟨_, _, enters_last collected (joins.trans joining) after⟩
      · rw [Workload.collect_of_not_joins joining, ← collected] at after
        exact ⟨_, _, enters_new (joins ▸ joining) after⟩

/-- A job is placed where it is collected. -/
theorem place_queues (bounded : work.Bounded) (unique : (issued ++ [job]).Nodup)
    : (queues work ⟨issued, line⟩).place work (work.rankOf job) job
      = { queues work ⟨issued ++ [job], line⟩ with
          pending := (queues work ⟨issued, line⟩).pending } := by
  obtain ⟨issuedOnce, _, apart⟩ := List.nodup_append.mp unique
  obtain ⟨groups, group, enters⟩ := exists_enters line job bounded issuedOnce
  have fresh : job ∉ groups.flatten := by
    intro member
    have earlier : job ∈ issued := enters.flatten ▸ List.mem_append_left _ member
    exact apart job earlier job (List.mem_singleton_self job) rfl
  -- The last group gets the states of the job, whether it was opened for the job or not.
  have extended := modify_concat (groups.map work.toGroup)
    ⟨(group ++ [job]).head?.bind work.clusterOf, group.flatMap work.statesOf⟩
    fun group => { group with states := group.states ++ work.statesOf job }
  rw [List.length_map] at extended
  have grouped : (queues work ⟨issued ++ [job], line⟩).groups
      = groups.map work.toGroup
        ++ [⟨(group ++ [job]).head?.bind work.clusterOf,
          group.flatMap work.statesOf ++ work.statesOf job⟩] := by
    rw [queues, enters.collected]
    simp [Workload.toGroup]
  have placed : ((queues work ⟨issued, line⟩).groupOf.set job (some groups.length))
      = (queues work ⟨issued ++ [job], line⟩).groupOf := by
    unfold queues
    rw [set_map_range, enters.collected]
    refine List.map_congr_left fun other _ => ?_
    rw [findIdx?_join fresh, enters.places]
  have current : (queues work ⟨issued ++ [job], line⟩).current = some (work.rankOf job) := by
    simp [queues]
  have emitted : (queues work ⟨issued ++ [job], line⟩).emitted
      = (queues work ⟨issued, line⟩).emitted + 1 := by
    simp [queues]
  unfold Queues.place
  simp only [enters.opened, List.length_append, List.length_singleton, Nat.add_sub_cancel,
    List.length_map, extended, placed, grouped, current, emitted]
  rfl

end Progress

-----------------------------------------------------------------------------------------
-- Counting down
-----------------------------------------------------------------------------------------

theorem Queues.release_eq (work : Workload) (queues : Queues) {user : Nat}
    (known : user < work.size) (count : Nat → Nat) (line : List Nat)
    : release work
        { queues with
          pending := (List.range work.size).map count
          ready := work.byRank line } user
      = { queues with
          pending :=
            (List.range work.size).map fun job => if job = user then count job - 1 else count job
          ready := work.byRank (line ++ [user].filter fun user => count user - 1 == 0) } := by
  unfold release
  simp only [modify_map_range, getElem?_map_range _ known, work.enqueue_byRank]
  by_cases last : count user - 1 = 0
  · simp [last]
  · simp [last]

/-- Jobs that are released one after another count one dependency less, and those with none left are
queued in order. By induction on the jobs, which are different from one another.
-/
theorem Queues.foldl_release (work : Workload) (queues : Queues) {users : List Nat}
    (unique : users.Nodup) (known : ∀ user ∈ users, user < work.size) (count : Nat → Nat)
    (line : List Nat)
    : users.foldl (release work)
        { queues with
          pending := (List.range work.size).map count
          ready := work.byRank line }
      = { queues with
          pending :=
            (List.range work.size).map fun job => if job ∈ users then count job - 1 else count job
          ready := work.byRank (line ++ users.filter fun user => count user - 1 == 0) } := by
  induction users generalizing count line with
  | nil => simp
  | cons user rest ih =>
      obtain ⟨fresh, restUnique⟩ := List.nodup_cons.mp unique
      obtain ⟨here, restKnown⟩ := List.forall_mem_cons.mp known
      have counted (job : Nat)
          : (if job ∈ rest then (if job = user then count job - 1 else count job) - 1
            else if job = user then count job - 1 else count job)
            = if job ∈ user :: rest then count job - 1 else count job := by
        by_cases same : job = user
        · subst same
          simp [fresh]
        · simp [same]
      have queued : (rest.filter fun other =>
            (if other = user then count other - 1 else count other) - 1 == 0)
          = rest.filter fun other => count other - 1 == 0 := by
        refine List.filter_congr fun other member => ?_
        have different : other ≠ user := fun same => fresh (same ▸ member)
        rw [if_neg different]
      rw [List.foldl_cons, release_eq work queues here, ih restUnique restKnown, queued,
        List.append_assoc, ← List.filter_append]
      simp only [counted]
      rfl

/-- (work.Regular) means that dependencies run between numbers of jobs, and that no job lists one of
them twice.
-/
structure Workload.Regular (work : Workload) : Prop where
  bounded : work.Bounded
  distinct : ∀ job, (work.dependenciesOf job).Nodup

namespace Progress

variable {work : Workload} {progress : Progress}

/-- Once a job is issued, each job that depends on it waits for one dependency less. -/
theorem length_awaited_issue (regular : work.Regular) {job : Nat}
    (fresh : job ∉ progress.issued) (other : Nat)
    : ((progress.issue work job).awaited work other).length
      = if job ∈ work.dependenciesOf other then (progress.awaited work other).length - 1
        else (progress.awaited work other).length := by
  have erased : (progress.issue work job).awaited work other
      = (progress.awaited work other).erase job := by
    rw [awaited, awaited, ((regular.distinct other).filter _).erase_eq_filter, List.filter_filter]
    refine List.filter_congr fun dependency _ => ?_
    rw [Bool.eq_iff_iff]
    simp [issue, and_comm]
  have member : job ∈ progress.awaited work other ↔ job ∈ work.dependenciesOf other := by
    simp [awaited, fresh]
  rw [erased, List.length_erase]
  simp only [member]

/-- The jobs that are queued are those that waited for the issued job alone. -/
theorem filter_usersOf (regular : work.Regular) {job : Nat} (fresh : job ∉ progress.issued)
    : ((work.usersOf job).filter fun user => (progress.awaited work user).length - 1 == 0)
      = (List.range work.size).filter fun other =>
          (work.dependenciesOf other).contains job
            && (work.dependenciesOf other).all fun dependency =>
              (progress.issue work job).issued.contains dependency := by
  rw [Workload.usersOf, List.filter_filter]
  refine List.filter_congr fun other _ => ?_
  rw [Bool.and_comm]
  by_cases depends : job ∈ work.dependenciesOf other
  · have length := length_awaited_issue regular fresh other
    rw [if_pos depends] at length
    rw [← length, List.contains_iff_mem.mpr depends, Bool.true_and, Bool.true_and, Bool.eq_iff_iff]
    simp [awaited, List.filter_eq_nil_iff]
  · simp [depends]

/-- Issuing the first job of a queue issues it from the line. -/
theorem Valid.issue_queues (valid : progress.Valid work) (regular : work.Regular) {job : Nat}
    (ready : job ∈ progress.ready)
    : (queues work ⟨progress.issued, progress.ready.erase job⟩).issue work (work.rankOf job) job
      = (progress.issue work job).queues work := by
  obtain ⟨_, fresh, _⟩ := (valid.mem_ready_iff job).mp ready
  have unique : (progress.issued ++ [job]).Nodup :=
    (List.nodup_append.mp (valid.issue_unique ready)).1
  have users : (work.usersOf job).Nodup := List.nodup_range.filter _
  have known : ∀ user ∈ work.usersOf job, user < work.size := by
    intro user member
    exact List.mem_range.mp (List.mem_filter.mp member).1
  have counted : ((List.range work.size).map fun other =>
        if other ∈ work.usersOf job then (progress.awaited work other).length - 1
        else (progress.awaited work other).length)
      = ((progress.issue work job).queues work).pending := by
    refine List.map_congr_left fun other inside => ?_
    have user : other ∈ work.usersOf job ↔ job ∈ work.dependenciesOf other := by
      simp [Workload.usersOf, List.mem_range.mp inside]
    rw [length_awaited_issue regular fresh]
    simp only [user]
  have released := Queues.foldl_release work
    (queues work ⟨progress.issued ++ [job], progress.ready.erase job⟩) users known
    (fun job => (progress.awaited work job).length) (progress.ready.erase job)
  rw [filter_usersOf regular fresh, counted] at released
  rw [Queues.issue, place_queues _ job regular.bounded unique]
  exact released

-----------------------------------------------------------------------------------------
-- Whole runs
-----------------------------------------------------------------------------------------

theorem queues_start (work : Workload) : (start work).queues work = Queues.start work := by
  have empty : List.replicate (work.clusters.length + 1) [] = work.byRank [] := by
    simp [Workload.byRank, List.map_const']
  have free : (start work).ready
      = (List.range work.size).filter fun job => (work.dependenciesOf job).length == 0 := by
    refine List.filter_congr fun job _ => ?_
    rw [Bool.eq_iff_iff]
    simp
  unfold Queues.start queues
  rw [empty, work.foldl_enqueue_byRank, List.nil_append, free]
  simp [start, awaited, List.map_const']

/-- A step of the run issues the next job of the line, or there is none. -/
theorem Valid.step?_queues (valid : progress.Valid work) (regular : work.Regular)
    : (progress.queues work).step? work
      = (progress.next? work).map fun job => (progress.issue work job).queues work := by
  unfold Queues.step?
  rw [pickRank?_queues work progress regular.bounded]
  cases next : progress.next? work with
  | none =>
      have empty := next?_eq_none next
      rcases choose?_spec work progress with ⟨membership, _, chosen⟩ | ⟨none, _⟩
      · obtain ⟨job, waiting, _⟩ := hasReady_iff.mp chosen.ready
        exact absurd (empty ▸ waiting) List.not_mem_nil
      · rw [none]
        rfl
  | some job =>
      obtain ⟨membership, choice, first⟩ := Option.bind_eq_some_iff.mp next
      have same : work.clusterOf job = membership := by simpa using List.find?_some first
      have issued := valid.issue_queues regular (next?_eq_some next).1
      rw [choice, Option.map_some, Option.map_some, ← issued, Workload.rankOf, same]
      exact congrArg (Option.bind · _) (take?_queues work progress first)

/-- The run stays in step with the line, by induction on the number of steps. -/
theorem Valid.drain_queues (valid : progress.Valid work) (regular : work.Regular)
    (steps : Nat)
    : Queues.drain work steps (progress.queues work)
      = (Progress.drain work steps progress).queues work := by
  induction steps generalizing progress with
  | zero => rfl
  | succ steps ih =>
      have step := valid.step?_queues regular
      unfold Queues.drain Progress.drain
      cases next : progress.next? work with
      | none => simp [step, next]
      | some job =>
          simp only [step, next, Option.map_some]
          exact ih (valid.issue (next?_eq_some next).1)

end Progress

namespace Workload

variable {work : Workload}

theorem run_eq_queues (regular : work.Regular)
    : work.run = (Progress.drain work work.size (.start work)).queues work := by
  rw [run, ← Progress.queues_start]
  exact (Progress.valid_start work).drain_queues regular work.size

/-- The finished run holds the groups of the whole order. -/
theorem groups_run (regular : work.Regular) : work.run.groups = work.groups := by
  rw [run_eq_queues regular]
  rfl

/-- The finished run leaves the jobs that the order leaves. -/
theorem left_run (regular : work.Regular) : work.run.left work = work.left := by
  rw [run_eq_queues regular]
  refine List.filter_congr fun job known => ?_
  rw [Progress.isLeft_queues, decide_eq_true (List.mem_range.mp known), Bool.true_and]
  rfl

/-- The finished run has issued all jobs but those that the order leaves. -/
theorem emitted_run (regular : work.Regular)
    : work.run.emitted + work.left.length = work.size := by
  have emitted : work.run.emitted = work.order.length := by
    rw [run_eq_queues regular]
    rfl
  simpa [emitted] using work.order_append_left_perm.length_eq

theorem ofStates_of_entries {graph : Graph} {chosen : List StateId} {found : List Entry}
    (looked : entries graph chosen = .ok found)
    : ofStates graph chosen
      = .ok ⟨found.foldl enlist [],
          (found.foldl enlist []).map (jobDependencies graph (found.foldl enlist []))⟩ := by
  simp only [ofStates, looked]

theorem regular_ofStates {graph : Graph} {chosen : List StateId}
    (made : ofStates graph chosen = .ok work)
    : work.Regular := by
  cases looked : entries graph chosen with
  | error error => simp [ofStates, looked] at made
  | ok found =>
      cases (ofStates_of_entries looked).symm.trans made
      generalize found.foldl enlist [] = jobs
      refine ⟨bounded_jobs graph jobs, fun job => ?_⟩
      unfold dependenciesOf
      rw [List.getElem?_map]
      cases jobs[job]? with
      | none => exact List.nodup_nil
      | some _ => exact List.nodup_range.filter _

end Workload

namespace Graph

variable {graph : Graph} (search : ComponentSearch) {chosen : List StateId} {work : Workload}

/-- Work of which nothing is left is scheduled in its groups. -/
theorem scheduleBy_of_done (made : Workload.ofStates graph chosen = .ok work)
    (done : work.left = [])
    : graph.scheduleBy search chosen = .ok work.groups := by
  have regular := Workload.regular_ofStates made
  have emitted := Workload.emitted_run regular
  rw [done, List.length_nil] at emitted
  simp only [scheduleBy, made, Workload.groups_run regular]
  exact if_neg (by omega)

/-- The jobs that are left are reported. -/
theorem scheduleBy_of_left (made : Workload.ofStates graph chosen = .ok work)
    (behind : work.left ≠ [])
    : graph.scheduleBy search chosen = .error (graph.cycleError search work work.left) := by
  have regular := Workload.regular_ofStates made
  have emitted := Workload.emitted_run regular
  have some := List.length_pos_iff.mpr behind
  simp only [scheduleBy, made, Workload.left_run regular]
  exact if_pos (by omega)

theorem scheduleBy_of_made (made : Workload.ofStates graph chosen = .ok work)
    : (work.left = [] ∧ graph.scheduleBy search chosen = .ok work.groups)
      ∨ (work.left ≠ []
        ∧ graph.scheduleBy search chosen = .error (graph.cycleError search work work.left)) := by
  by_cases done : work.left = []
  · exact Or.inl ⟨done, scheduleBy_of_done search made done⟩
  · exact Or.inr ⟨done, scheduleBy_of_left search made done⟩

theorem scheduleBy_of_error {error : Error} (failed : Workload.ofStates graph chosen = .error error)
    : graph.scheduleBy search chosen = .error error := by
  simp only [scheduleBy, failed]

end Graph

end StepPlan
