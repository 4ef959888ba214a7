import Mathlib.Data.List.Perm.Subperm
import StepPlan.Proofs.Schedule.Jobs
import StepPlan.Schedule

/-! The order in which jobs are issued, read off the issued jobs alone. The ready jobs wait in one
line, in the order in which they became ready. At every moment they are exactly those that are not
issued and wait for nothing, a job is issued after all it depends on, and the run stops only
when nothing is ready. The jobs that it leaves behind are the ones that lead to a cycle.
-/

namespace StepPlan

open Relation

/-- The jobs issued so far, in order, and those ready to be issued, in order. -/
structure Progress where
  issued : List Nat
  ready : List Nat
  deriving DecidableEq

namespace Progress

/-- The jobs that depend on nothing are ready from the start. -/
def start (work : Workload) : Progress :=
  ⟨[], (List.range work.size).filter fun job => (work.dependenciesOf job).isEmpty⟩

/-- Whether a job with the given cluster membership is ready. -/
def hasReady (work : Workload) (progress : Progress) (cluster : Option ClusterId) : Bool :=
  progress.ready.any fun job => work.clusterOf job = cluster

/-- The dependencies of a job that are not issued yet. -/
def awaited (work : Workload) (progress : Progress) (job : Nat) : List Nat :=
  (work.dependenciesOf job).filter fun dependency => !progress.issued.contains dependency

/-- Whether the jobs of a cluster that are left wait only for one another, so that the cluster
can run to its end once it is started.
-/
def selfContained (work : Workload) (progress : Progress) (cluster : ClusterId) : Bool :=
  let left := (List.range work.size).filter fun job =>
    decide (work.clusterOf job = some cluster) && !progress.issued.contains job
  (Reach.closure work.size (progress.awaited work) left).all fun job =>
    work.clusterOf job = some cluster

/-- The cluster of the job issued last, if that job has one. -/
def currentCluster? (work : Workload) (progress : Progress) : Option ClusterId :=
  progress.issued.getLast?.bind work.clusterOf

/-- The cluster membership from which the next job is taken. -/
def choose? (work : Workload) (progress : Progress) : Option (Option ClusterId) :=
  match (progress.currentCluster? work).filter fun cluster =>
      progress.hasReady work (some cluster) with
  | some cluster => some (some cluster)
  | none =>
      if progress.hasReady work none then some none
      else
        let waiting := work.clusters.filter fun cluster => progress.hasReady work (some cluster)
        ((waiting.find? (progress.selfContained work)) <|> waiting.head?).map some

/-- The next job: the first ready one with the chosen membership. -/
def next? (work : Workload) (progress : Progress) : Option Nat :=
  (progress.choose? work).bind fun cluster =>
    progress.ready.find? fun job => work.clusterOf job = cluster

/-- Issues a job: the jobs that waited only for it become ready. -/
def issue (work : Workload) (progress : Progress) (job : Nat) : Progress :=
  let issued := progress.issued ++ [job]
  let released := (List.range work.size).filter fun other =>
    (work.dependenciesOf other).contains job &&
      (work.dependenciesOf other).all fun dependency => issued.contains dependency
  ⟨issued, progress.ready.erase job ++ released⟩

/-- Issues jobs while there is a next one, at most the given number. -/
def drain (work : Workload) : Nat → Progress → Progress
  | 0, progress => progress
  | steps + 1, progress =>
      match progress.next? work with
      | none => progress
      | some job => drain work steps (progress.issue work job)

end Progress

namespace Workload

/-- The jobs in the order in which they are issued. Jobs on or behind a cycle are left out. -/
def order (work : Workload) : List Nat :=
  (Progress.drain work work.size (.start work)).issued

/-- The jobs that cannot be issued. -/
def left (work : Workload) : List Nat :=
  let issued := work.order
  (List.range work.size).filter fun job => !issued.contains job

end Workload

-----------------------------------------------------------------------------------------
-- What every step keeps
-----------------------------------------------------------------------------------------

namespace Progress

/-- What holds of the issued and the ready jobs at every moment of a run. -/
structure Valid (work : Workload) (progress : Progress) : Prop where
  unique : (progress.issued ++ progress.ready).Nodup
  known : ∀ job ∈ progress.issued, job < work.size
  mem_ready_iff
    : ∀ job,
        job ∈ progress.ready
        ↔ job < work.size
          ∧ job ∉ progress.issued
          ∧ ∀ other, work.DependsOn job other → other ∈ progress.issued
  ordered
    : ∀ before job after,
        progress.issued = before ++ job :: after
        → ∀ other, work.DependsOn job other → other ∈ before

/-- What an issued job depends on is issued. -/
theorem Valid.closed {work : Workload} {progress : Progress} (valid : progress.Valid work)
    {job other : Nat} (issued : job ∈ progress.issued) (depends : work.DependsOn job other)
    : other ∈ progress.issued := by
  obtain ⟨before, after, split⟩ := List.append_of_mem issued
  rw [split]
  exact List.mem_append_left _ (valid.ordered before job after split other depends)

/-- A run starts validly: nothing is issued, and ready is what depends on nothing. -/
theorem valid_start (work : Workload) : (start work).Valid work := by
  refine ⟨?_, ?_, ?_, ?_⟩
  · simpa [start] using List.nodup_range.filter _
  · simp [start]
  · intro job
    simp [start, Workload.DependsOn, List.eq_nil_iff_forall_not_mem]
  · simp [start]

/-- The jobs that become ready with a job are those that depend on it and wait for nothing else. -/
theorem mem_issue_ready_iff (work : Workload) {progress : Progress}
    (unique : progress.ready.Nodup) (job other : Nat)
    : other ∈ (progress.issue work job).ready
      ↔ (other ≠ job ∧ other ∈ progress.ready)
        ∨ (other < work.size
          ∧ work.DependsOn other job
          ∧ ∀ dependency,
              work.DependsOn other dependency → dependency ∈ progress.issued ++ [job]) := by
  simp only [issue, List.mem_append, unique.mem_erase_iff, List.mem_filter, List.mem_range,
    Bool.and_eq_true, List.contains_iff_mem, List.all_eq_true, Workload.DependsOn]

/-- What depends on a ready job is neither issued nor ready, since the job was not issued yet. -/
theorem Valid.released {work : Workload} {progress : Progress} (valid : progress.Valid work)
    {job other : Nat} (ready : job ∈ progress.ready) (depends : work.DependsOn other job)
    : other ∉ progress.issued ∧ other ≠ job ∧ other ∉ progress.ready := by
  obtain ⟨_, fresh, free⟩ := (valid.mem_ready_iff job).mp ready
  refine ⟨?_, ?_, ?_⟩
  · intro issued
    exact fresh (valid.closed issued depends)
  · rintro rfl
    exact fresh (free other depends)
  · intro waiting
    exact fresh (((valid.mem_ready_iff other).mp waiting).2.2 job depends)

/-- After a ready job is issued, no job is listed twice among the issued and the ready ones. -/
theorem Valid.issue_unique {work : Workload} {progress : Progress} (valid : progress.Valid work)
    {job : Nat} (ready : job ∈ progress.ready)
    : ((progress.issue work job).issued ++ (progress.issue work job).ready).Nodup := by
  have kept : (progress.issued ++ job :: progress.ready.erase job).Nodup :=
    ((List.perm_cons_erase ready).append_left _).nodup_iff.mp valid.unique
  have all : (progress.issued ++ [job] ++ progress.ready.erase job).Nodup := by simpa using kept
  simp only [Progress.issue, ← List.append_assoc]
  refine List.nodup_append.mpr ⟨all, List.nodup_range.filter _, ?_⟩
  intro earlier member other later same
  subst other
  simp only [List.mem_filter, Bool.and_eq_true, List.contains_iff_mem] at later
  obtain ⟨fresh, different, waiting⟩ := valid.released ready later.2.1
  simp only [List.mem_append, List.mem_singleton] at member
  rcases member with (issued | last) | kept
  · exact fresh issued
  · exact different last
  · exact waiting (List.mem_of_mem_erase kept)

/-- After a ready job is issued, the ready jobs are again those that wait for nothing. A job that
becomes ready now depends on the one that is issued.
-/
theorem Valid.issue_mem_ready_iff {work : Workload} {progress : Progress}
    (valid : progress.Valid work) {job : Nat} (ready : job ∈ progress.ready) (other : Nat)
    : other ∈ (progress.issue work job).ready
      ↔ other < work.size
        ∧ other ∉ (progress.issue work job).issued
        ∧ ∀ dependency, work.DependsOn other dependency
          → dependency ∈ (progress.issue work job).issued := by
  rw [mem_issue_ready_iff work (List.nodup_append.mp valid.unique).2.1 job other]
  constructor
  · rintro (⟨different, waiting⟩ | ⟨known, depends, free⟩)
    · obtain ⟨known, fresh, free⟩ := (valid.mem_ready_iff other).mp waiting
      refine ⟨known, ?_, fun dependency depends =>
        List.mem_append_left _ (free dependency depends)⟩
      simpa [Progress.issue, different] using fresh
    · obtain ⟨fresh, different, _⟩ := valid.released ready depends
      refine ⟨known, ?_, free⟩
      simpa [Progress.issue, different] using fresh
  · rintro ⟨known, fresh, free⟩
    simp only [Progress.issue, List.mem_append, List.mem_singleton, not_or] at fresh
    by_cases depends : work.DependsOn other job
    · exact Or.inr ⟨known, depends, free⟩
    · refine Or.inl ⟨fresh.2, (valid.mem_ready_iff other).mpr ⟨known, fresh.1, ?_⟩⟩
      intro dependency needed
      rcases List.mem_append.mp (free dependency needed) with earlier | last
      · exact earlier
      · exact absurd (List.mem_singleton.mp last ▸ needed) depends

/-- Issuing a ready job keeps the run valid. -/
theorem Valid.issue {work : Workload} {progress : Progress} (valid : progress.Valid work)
    {job : Nat} (ready : job ∈ progress.ready)
    : (progress.issue work job).Valid work := by
  obtain ⟨jobKnown, _, jobFree⟩ := (valid.mem_ready_iff job).mp ready
  refine ⟨valid.issue_unique ready, ?_, valid.issue_mem_ready_iff ready, ?_⟩
  · exact List.forall_mem_append.mpr ⟨valid.known, List.forall_mem_singleton.mpr jobKnown⟩
  · intro before other after split dependency depends
    -- Either the job is the one issued last, or its place was in the run before.
    rcases List.eq_nil_or_concat after with rfl | ⟨rest, final, rfl⟩
    · have ends : progress.issued ++ [job] = before ++ [other] := split
      obtain ⟨rfl, same⟩ := List.append_inj' ends rfl
      cases same
      exact jobFree dependency depends
    · have shorter : progress.issued = before ++ other :: rest := by
        have equal : progress.issued ++ [job] = (before ++ other :: rest) ++ [final] := by
          simpa [Progress.issue] using split
        exact (List.append_inj' equal rfl).1
      exact valid.ordered before other rest shorter dependency depends

-----------------------------------------------------------------------------------------
-- The choice of the next job
-----------------------------------------------------------------------------------------

theorem hasReady_iff {work : Workload} {progress : Progress} {cluster : Option ClusterId}
    : progress.hasReady work cluster = true
      ↔ ∃ job ∈ progress.ready, work.clusterOf job = cluster := by
  simp [hasReady]

theorem mem_clusters {work : Workload} {job : Nat} {cluster : ClusterId}
    (member : work.clusterOf job = some cluster)
    : cluster ∈ work.clusters := by
  unfold Workload.clusterOf at member
  obtain ⟨found, foundAt, foundCluster⟩ := Option.bind_eq_some_iff.mp member
  rw [Workload.clusters, List.mem_eraseDups]
  exact List.mem_filterMap.mpr ⟨found, List.mem_of_getElem? foundAt, foundCluster⟩

/-- The cluster of the job issued last has nothing ready, if that job has a cluster at all. -/
def Paused (work : Workload) (progress : Progress) : Prop :=
  ∀ cluster,
    progress.currentCluster? work = some cluster
    → progress.hasReady work (some cluster) = false

/-- The ways in which a membership is chosen. The current cluster goes on if it can; otherwise
jobs without a cluster come first; otherwise it is a cluster that can run to its end, or just
some ready one if there is no such cluster.
-/
inductive Chosen (work : Workload) (progress : Progress) : Option ClusterId → Prop
  | current {cluster : ClusterId} (last : progress.currentCluster? work = some cluster)
    (ready : progress.hasReady work (some cluster) = true)
    : Chosen work progress (some cluster)
  | unclustered (paused : progress.Paused work) (ready : progress.hasReady work none = true)
    : Chosen work progress none
  | fresh {cluster : ClusterId} (paused : progress.Paused work)
    (clustered : progress.hasReady work none = false)
    (ready : progress.hasReady work (some cluster) = true)
    (contained
      : progress.selfContained work cluster = true
        ∨ ∀ other,
            progress.hasReady work (some other) = true
            → progress.selfContained work other = false)
    : Chosen work progress (some cluster)

theorem Chosen.ready {work : Workload} {progress : Progress} {membership : Option ClusterId}
    (chosen : Chosen work progress membership)
    : progress.hasReady work membership = true := by
  cases chosen with
  | current _ ready => exact ready
  | unclustered _ ready => exact ready
  | fresh _ _ ready _ => exact ready

/-- The clusters in line for a choice are exactly those with a ready job. -/
theorem mem_waiting_iff (work : Workload) (progress : Progress) (cluster : ClusterId)
    : cluster ∈ (work.clusters.filter fun cluster => progress.hasReady work (some cluster))
      ↔ progress.hasReady work (some cluster) = true := by
  rw [List.mem_filter, and_iff_right_iff_imp]
  intro ready
  obtain ⟨job, _, membership⟩ := hasReady_iff.mp ready
  exact mem_clusters membership

/-- The choice is made in one of these ways, or nothing is ready at all. -/
theorem choose?_spec (work : Workload) (progress : Progress)
    : (∃ membership,
        progress.choose? work = some membership ∧ Chosen work progress membership)
      ∨ (progress.choose? work = none ∧ progress.ready = []) := by
  unfold choose?
  cases going : (progress.currentCluster? work).filter fun cluster =>
      progress.hasReady work (some cluster) with
  | some cluster =>
      obtain ⟨last, ready⟩ := Option.filter_eq_some_iff.mp going
      exact Or.inl ⟨some cluster, rfl, .current last ready⟩
  | none =>
      have paused : progress.Paused work := by
        intro cluster last
        simpa [last, Option.filter] using going
      dsimp only
      by_cases unclustered : progress.hasReady work none = true
      · rw [if_pos unclustered]
        exact Or.inl ⟨none, rfl, .unclustered paused unclustered⟩
      · rw [if_neg unclustered]
        have clustered : progress.hasReady work none = false := by simpa using unclustered
        have waitingIff := mem_waiting_iff work progress
        generalize (work.clusters.filter fun cluster => progress.hasReady work (some cluster))
          = waiting at waitingIff ⊢
        cases found : waiting.find? (progress.selfContained work) with
        | some cluster =>
            have ready := (waitingIff cluster).mp (List.mem_of_find?_eq_some found)
            have contained := List.find?_some found
            exact Or.inl ⟨some cluster, rfl, .fresh paused clustered ready (Or.inl contained)⟩
        | none =>
            cases waiting with
            | nil =>
                -- No membership has a ready job, so there is no ready job.
                refine Or.inr ⟨rfl, List.eq_nil_iff_forall_not_mem.mpr fun job member => ?_⟩
                cases membership : work.clusterOf job with
                | none => exact unclustered (hasReady_iff.mpr ⟨job, member, membership⟩)
                | some cluster =>
                    have ready := hasReady_iff.mpr ⟨job, member, membership⟩
                    exact absurd ((waitingIff cluster).mpr ready) List.not_mem_nil
            | cons cluster rest =>
                -- The fallback: no cluster in line can run to its end.
                have ready := (waitingIff cluster).mp List.mem_cons_self
                refine Or.inl ⟨some cluster, rfl, .fresh paused clustered ready (Or.inr ?_)⟩
                intro other otherReady
                have missed := List.find?_eq_none.mp found other ((waitingIff other).mpr otherReady)
                simpa using missed

/-- The next job is a ready one whose membership was chosen. -/
theorem next?_eq_some {work : Workload} {progress : Progress} {job : Nat}
    (next : progress.next? work = some job)
    : job ∈ progress.ready ∧ Chosen work progress (work.clusterOf job) := by
  obtain ⟨membership, choice, found⟩ := Option.bind_eq_some_iff.mp next
  have same : work.clusterOf job = membership := by simpa using List.find?_some found
  rcases choose?_spec work progress with ⟨actual, chosen, spec⟩ | ⟨impossible, _⟩
  · cases choice.symm.trans chosen
    exact ⟨List.mem_of_find?_eq_some found, same ▸ spec⟩
  · cases choice.symm.trans impossible

/-- There is no next job only if nothing is ready. -/
theorem next?_eq_none {work : Workload} {progress : Progress}
    (stopped : progress.next? work = none)
    : progress.ready = [] := by
  rcases choose?_spec work progress with ⟨membership, choice, chosen⟩ | ⟨_, empty⟩
  · obtain ⟨job, member, same⟩ := hasReady_iff.mp chosen.ready
    rw [next?, choice, Option.bind_some, List.find?_eq_none] at stopped
    exact absurd same (by simpa using stopped job member)
  · exact empty

-----------------------------------------------------------------------------------------
-- Whole runs
-----------------------------------------------------------------------------------------

/-- What holds before a run and is kept whenever the next job is issued holds after the run, by
induction on the number of steps.
-/
theorem drain_induction {work : Workload} {holds : Progress → Prop}
    (step
      : ∀ progress job,
          holds progress
          → progress.next? work = some job
          → holds (progress.issue work job))
    (steps : Nat) {progress : Progress} (before : holds progress)
    : holds (drain work steps progress) := by
  induction steps generalizing progress with
  | zero => exact before
  | succ steps ih =>
      unfold drain
      cases next : progress.next? work with
      | none => exact before
      | some job => exact ih (step progress job before next)

theorem Valid.drain {work : Workload} {progress : Progress} (valid : progress.Valid work)
    (steps : Nat)
    : (Progress.drain work steps progress).Valid work := by
  refine drain_induction (fun current job held next => ?_) steps valid
  exact held.issue (next?_eq_some next).1

/-- There are never more issued and ready jobs together than there are jobs. -/
theorem Valid.length_le {work : Workload} {progress : Progress} (valid : progress.Valid work)
    : (progress.issued ++ progress.ready).length ≤ work.size := by
  have below : ∀ job ∈ progress.issued ++ progress.ready, job ∈ List.range work.size := by
    intro job member
    rcases List.mem_append.mp member with issued | ready
    · exact List.mem_range.mpr (valid.known job issued)
    · exact List.mem_range.mpr ((valid.mem_ready_iff job).mp ready).1
  simpa using (List.subperm_of_subset valid.unique below).length_le

/-- With as many steps as there are jobs to come, a run stops only when nothing is ready. By
induction on the steps, each of which issues one more job.
-/
theorem Valid.drain_ready {work : Workload} {progress : Progress}
    (valid : progress.Valid work) {steps : Nat}
    (enough : work.size ≤ progress.issued.length + steps)
    : (Progress.drain work steps progress).ready = [] := by
  induction steps generalizing progress with
  | zero =>
      have bound := valid.length_le
      rw [List.length_append] at bound
      exact List.eq_nil_of_length_eq_zero (by unfold Progress.drain; omega)
  | succ steps ih =>
      unfold Progress.drain
      cases next : progress.next? work with
      | none => exact next?_eq_none next
      | some job =>
          refine ih (valid.issue (next?_eq_some next).1) ?_
          simp only [Progress.issue, List.length_append, List.length_singleton]
          omega

end Progress

namespace Workload

-----------------------------------------------------------------------------------------
-- The finished run
-----------------------------------------------------------------------------------------

/-- The run that makes the order ends validly and with nothing ready. -/
theorem order_finished (work : Workload)
    : (Progress.drain work work.size (.start work)).Valid work
      ∧ (Progress.drain work work.size (.start work)).ready = [] := by
  have valid := Progress.valid_start work
  exact ⟨valid.drain work.size, valid.drain_ready (Nat.le_add_left _ _)⟩

theorem order_nodup (work : Workload) : work.order.Nodup :=
  (List.nodup_append.mp work.order_finished.1.unique).1

/-- In the order, a job comes after what it depends on. -/
theorem order_split {work : Workload} {before after : List Nat} {job : Nat}
    (split : work.order = before ++ job :: after) {other : Nat}
    (depends : work.DependsOn job other)
    : other ∈ before :=
  work.order_finished.1.ordered before job after split other depends

theorem mem_left_iff {work : Workload} {job : Nat}
    : job ∈ work.left ↔ job < work.size ∧ job ∉ work.order := by
  simp [left]

/-- Each job is either issued or left. -/
theorem order_append_left_perm (work : Workload)
    : (work.order ++ work.left).Perm (List.range work.size) := by
  have unique : (work.order ++ work.left).Nodup := by
    refine List.nodup_append.mpr ⟨work.order_nodup, List.nodup_range.filter _, ?_⟩
    intro issued member behind left same
    exact (mem_left_iff.mp left).2 (same ▸ member)
  refine (List.perm_ext_iff_of_nodup unique List.nodup_range).mpr fun job => ?_
  rw [List.mem_append, mem_left_iff, List.mem_range]
  constructor
  · rintro (issued | behind)
    · exact work.order_finished.1.known job issued
    · exact behind.1
  · intro known
    by_cases issued : job ∈ work.order
    · exact Or.inl issued
    · exact Or.inr ⟨known, issued⟩

/-- A job that is left waits for another one that is left, since nothing is ready at the end. -/
theorem exists_dependsOn_left {work : Workload} (bounded : work.Bounded) {job : Nat}
    (behind : job ∈ work.left)
    : ∃ other ∈ work.left, work.DependsOn job other := by
  obtain ⟨valid, finished⟩ := work.order_finished
  obtain ⟨known, fresh⟩ := mem_left_iff.mp behind
  have blocked : job ∉ (Progress.drain work work.size (.start work)).ready := by simp [finished]
  rw [valid.mem_ready_iff] at blocked
  by_contra free
  refine blocked ⟨known, fresh, fun other depends => ?_⟩
  by_contra missing
  exact free ⟨other, mem_left_iff.mpr ⟨(bounded job other depends).2, missing⟩, depends⟩

/-- What an issued job leads to is issued earlier, by induction along the dependencies. -/
theorem idxOf_lt_of_leads {work : Workload} {job other : Nat} (issued : job ∈ work.order)
    (leads : TransGen work.DependsOn job other)
    : other ∈ work.order ∧ work.order.idxOf other < work.order.idxOf job := by
  have step {job other : Nat} (issued : job ∈ work.order) (depends : work.DependsOn job other)
      : other ∈ work.order ∧ work.order.idxOf other < work.order.idxOf job := by
    obtain ⟨before, after, split⟩ := List.append_of_mem issued
    have earlier := order_split split depends
    have fresh : job ∉ before := by
      have unique := work.order_nodup
      rw [split] at unique
      exact fun member => (List.nodup_append.mp unique).2.2 job member job (by simp) rfl
    rw [split]
    refine ⟨List.mem_append_left _ earlier, ?_⟩
    rw [List.idxOf_append_of_mem earlier, List.idxOf_append_of_notMem fresh]
    have inside := List.idxOf_lt_length_of_mem earlier
    omega
  induction leads with
  | single depends => exact step issued depends
  | tail _ depends ih =>
      obtain ⟨member, lower⟩ := ih
      obtain ⟨next, further⟩ := step member depends
      exact ⟨next, Nat.lt_trans further lower⟩

/-- Where everything in a list is followed by something in the list, everything leads to a cycle.
By induction on the length of the list: what is not on a cycle itself goes on to a shorter list,
namely to what comes after it.
-/
theorem exists_cycle_of_forall_step {α : Type} {relation : α → α → Prop} (items : List α)
    (step : ∀ item ∈ items, ∃ next ∈ items, relation item next) {item : α}
    (member : item ∈ items)
    : ∃ other, ReflTransGen relation item other ∧ TransGen relation other other := by
  classical
  induction length : items.length using Nat.strong_induction_on generalizing items item with
  | _ count ih =>
      by_cases cycle : TransGen relation item item
      · exact ⟨item, .refl, cycle⟩
      · obtain ⟨next, nextMember, first⟩ := step item member
        let later := items.filter fun other => decide (TransGen relation item other)
        have shorter : later.length < count := by
          rw [← length]
          exact List.length_filter_lt_length_iff_exists.mpr ⟨item, member, by simpa using cycle⟩
        have laterStep : ∀ other ∈ later, ∃ following ∈ later, relation other following := by
          intro other otherMember
          obtain ⟨inside, path⟩ := List.mem_filter.mp otherMember
          obtain ⟨following, followingMember, edge⟩ := step other inside
          refine ⟨following, List.mem_filter.mpr ⟨followingMember, ?_⟩, edge⟩
          exact decide_eq_true ((of_decide_eq_true path).tail edge)
        have nextLater : next ∈ later :=
          List.mem_filter.mpr ⟨nextMember, decide_eq_true (.single first)⟩
        obtain ⟨other, path, found⟩ := ih later.length shorter later laterStep nextLater rfl
        exact ⟨other, path.head first, found⟩

/-- The jobs left behind are those that lead to a cycle, or lie on one: each of them waits for
another of them, and none that lies on a cycle is ever issued.
-/
theorem mem_left_iff_leads_to_cycle {work : Workload} (bounded : work.Bounded) {job : Nat}
    : job ∈ work.left
      ↔ job < work.size
        ∧ ∃ other,
            ReflTransGen work.DependsOn job other ∧ TransGen work.DependsOn other other := by
  constructor
  · intro behind
    refine ⟨(mem_left_iff.mp behind).1, ?_⟩
    exact exists_cycle_of_forall_step work.left
      (fun other member => exists_dependsOn_left bounded member) behind
  · rintro ⟨known, other, leads, cycle⟩
    refine mem_left_iff.mpr ⟨known, fun issued => ?_⟩
    have otherIssued : other ∈ work.order := by
      rcases reflTransGen_iff_eq_or_transGen.mp leads with same | path
      · exact same ▸ issued
      · exact (idxOf_lt_of_leads issued path).1
    exact Nat.lt_irrefl _ (idxOf_lt_of_leads otherIssued cycle).2

end Workload

end StepPlan
