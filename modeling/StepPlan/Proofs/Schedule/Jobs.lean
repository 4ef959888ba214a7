import Mathlib.Data.List.Nodup
import StepPlan.Proofs.Graph.Construction
import StepPlan.Proofs.Reachability
import StepPlan.Schedule.Workload

/-! What the work to schedule says about the chosen states. The jobs divide the chosen states
among themselves, and one job leads to another over dependencies between jobs exactly when a
path of the graph leads from the node of the one to the node of the other.
-/

namespace StepPlan

open Relation

-----------------------------------------------------------------------------------------
-- Looking up the chosen states
-----------------------------------------------------------------------------------------

theorem Graph.entry?_state {graph : Graph} {state : StateId} {entry : Entry}
    (found : graph.entry? state = some entry)
    : entry.state = state := by
  simpa using List.find?_some found

namespace Workload

/-- Lookup succeeds with one entry per chosen state, in order, exactly when every state is known.
By induction on the chosen states.
-/
theorem entries_ok_iff {graph : Graph} {chosen : List StateId} {found : List Entry}
    : entries graph chosen = .ok found ↔ chosen.map graph.entry? = found.map some := by
  induction chosen generalizing found with
  | nil => cases found <;> simp [entries]
  | cons state rest ih =>
      unfold entries Graph.entry
      cases known : graph.entry? state with
      | none => cases found <;> simp [known]
      | some entry =>
          cases later : entries graph rest with
          | error _ =>
              cases found with
              | nil => simp
              | cons first others =>
                  simp only [List.map_cons, List.cons.injEq, reduceCtorEq, false_iff, not_and]
                  intro _ same
                  exact absurd (later.symm.trans (ih.mpr same)) (by simp)
          | ok more =>
              cases found with
              | nil => simp
              | cons first others =>
                  have same := ih.symm.trans (by rw [later, Except.ok.injEq] : _ ↔ more = others)
                  simp [known, same]

/-- Lookup fails with the first unknown state, by induction on the chosen states. -/
theorem entries_of_unknown {graph : Graph} {before : List StateId} {state : StateId}
    (known : ∀ earlier ∈ before, graph.entry? earlier ≠ none)
    (unknown : graph.entry? state = none) (after : List StateId)
    : entries graph (before ++ state :: after) = .error (.unknownState state) := by
  induction before with
  | nil => simp [entries, Graph.entry, unknown]
  | cons first rest ih =>
      obtain ⟨entry, found⟩ := Option.ne_none_iff_exists'.mp (known first (by simp))
      have later := ih fun earlier member => known earlier (by simp [member])
      simp [entries, Graph.entry, found, later]

-----------------------------------------------------------------------------------------
-- Dividing entries among jobs
-----------------------------------------------------------------------------------------

/-- A job is the one for an entry: it has the entry's node and cluster membership. -/
def Matches (job : Job) (entry : Entry) : Prop :=
  job.node = entry.node ∧ job.cluster = entry.cluster

/-- The jobs divide the states of the entries seen so far: each state is in the one job that
matches its entry, once, and there is no job without states.
-/
structure Enlisted (seen : List Entry) (jobs : List Job) : Prop where
  holds
    : ∀ job ∈ jobs, ∀ state,
        state ∈ job.states ↔ ∃ entry ∈ seen, entry.state = state ∧ Matches job entry
  covers : ∀ entry ∈ seen, ∃ job ∈ jobs, Matches job entry
  distinct
    : jobs.Pairwise fun job other => ¬ (job.node = other.node ∧ job.cluster = other.cluster)
  unique : ∀ job ∈ jobs, job.states.Nodup
  inhabited : ∀ job ∈ jobs, job.states ≠ []

/-- The job that an entry leaves in the place of a job: with the state of the entry, if the job
matches and has not got the state already.
-/
private def receive (entry : Entry) (job : Job) : Job :=
  if job.node = entry.node ∧ job.cluster = entry.cluster ∧ job.states.contains entry.state = false
  then { job with states := job.states ++ [entry.state] }
  else job

private theorem receive_place (entry : Entry) (job : Job)
    : (receive entry job).node = job.node ∧ (receive entry job).cluster = job.cluster := by
  unfold receive
  split <;> exact ⟨rfl, rfl⟩

/-- A job that matches receives the entry's state, and no job receives anything else. -/
private theorem mem_receive (entry : Entry) (job : Job) (state : StateId)
    : state ∈ (receive entry job).states
      ↔ state ∈ job.states ∨ (entry.state = state ∧ Matches job entry) := by
  unfold receive Matches
  split
  · rename_i fresh
    simp only [List.mem_append, List.mem_singleton, fresh.1, fresh.2.1, and_self, and_true,
      eq_comm]
  · rename_i stale
    constructor
    · exact Or.inl
    · rintro (member | ⟨rfl, place⟩)
      · exact member
      · by_contra missing
        exact stale ⟨place.1, place.2, by simpa using missing⟩

private theorem receive_nodup (entry : Entry) {job : Job} (unique : job.states.Nodup)
    : (receive entry job).states.Nodup := by
  unfold receive
  split
  · rename_i fresh
    have missing : entry.state ∉ job.states := by simpa using fresh.2.2
    refine List.nodup_append.mpr ⟨unique, List.nodup_singleton _, ?_⟩
    intro state member other last same
    rw [List.mem_singleton.mp last] at same
    exact missing (same ▸ member)
  · exact unique

/-- An entry that some job matches is divided correctly by giving it to that job. Jobs are distinct,
so no other job changes.
-/
private theorem Enlisted.join {seen : List Entry} {jobs : List Job} (enlisted : Enlisted seen jobs)
    {entry : Entry} (present : ∃ job ∈ jobs, Matches job entry)
    : Enlisted (seen ++ [entry]) (jobs.map (receive entry)) := by
  refine ⟨?_, ?_, ?_, ?_, ?_⟩
  · intro job member state
    obtain ⟨old, oldMember, rfl⟩ := List.mem_map.mp member
    have place := receive_place entry old
    rw [mem_receive, enlisted.holds old oldMember]
    simp only [Matches, place, List.mem_append, List.mem_singleton, or_and_right, exists_or,
      exists_eq_left]
  · have covered : ∀ found ∈ seen ++ [entry], ∃ job ∈ jobs, Matches job found :=
      List.forall_mem_append.mpr ⟨enlisted.covers, List.forall_mem_singleton.mpr present⟩
    intro found member
    obtain ⟨job, jobMember, matching⟩ := covered found member
    refine ⟨receive entry job, List.mem_map_of_mem jobMember, ?_⟩
    simpa only [Matches, receive_place] using matching
  · refine List.pairwise_map.mpr (enlisted.distinct.imp ?_)
    intro job other different
    simpa only [receive_place] using different
  · intro job member
    obtain ⟨old, oldMember, rfl⟩ := List.mem_map.mp member
    exact receive_nodup entry (enlisted.unique old oldMember)
  · intro job member
    obtain ⟨old, oldMember, rfl⟩ := List.mem_map.mp member
    obtain ⟨state, stateMember⟩ := List.exists_mem_of_ne_nil _ (enlisted.inhabited old oldMember)
    exact List.ne_nil_of_mem ((mem_receive entry old state).mpr (Or.inl stateMember))

/-- An entry that no job matches is divided correctly by giving it a job of its own. -/
private theorem Enlisted.extend {seen : List Entry} {jobs : List Job}
    (enlisted : Enlisted seen jobs) {entry : Entry} (absent : ∀ job ∈ jobs, ¬ Matches job entry)
    : Enlisted (seen ++ [entry]) (jobs ++ [⟨entry.node, entry.cluster, [entry.state]⟩]) := by
  refine ⟨?_, ?_, ?_, ?_, ?_⟩
  · refine List.forall_mem_append.mpr ⟨?_, List.forall_mem_singleton.mpr ?_⟩
    · intro job old state
      rw [enlisted.holds job old]
      simp [or_and_right, exists_or, absent job old]
    · intro state
      constructor
      · intro same
        exact ⟨entry, by simp, (List.mem_singleton.mp same).symm, rfl, rfl⟩
      · rintro ⟨found, foundMember, rfl, place⟩
        -- An earlier entry at the same place would have left a job that matches this one.
        rcases List.mem_append.mp foundMember with earlier | last
        · obtain ⟨job, jobMember, matching⟩ := enlisted.covers found earlier
          exact absurd ⟨matching.1.trans place.1.symm, matching.2.trans place.2.symm⟩
            (absent job jobMember)
        · rw [List.mem_singleton.mp last]
          exact List.mem_singleton_self _
  · refine List.forall_mem_append.mpr ⟨?_, List.forall_mem_singleton.mpr ?_⟩
    · intro found earlier
      obtain ⟨job, jobMember, matching⟩ := enlisted.covers found earlier
      exact ⟨job, List.mem_append_left _ jobMember, matching⟩
    · exact ⟨_, List.mem_append_right _ (List.mem_singleton_self _), rfl, rfl⟩
  · refine List.pairwise_append.mpr ⟨enlisted.distinct, List.pairwise_singleton _ _, ?_⟩
    intro job member other last
    rw [List.mem_singleton.mp last]
    exact absent job member
  · exact List.forall_mem_append.mpr
      ⟨enlisted.unique, List.forall_mem_singleton.mpr (List.nodup_singleton _)⟩
  · exact List.forall_mem_append.mpr
      ⟨enlisted.inhabited, List.forall_mem_singleton.mpr (List.cons_ne_nil _ _)⟩

/-- One more entry is divided correctly. -/
theorem Enlisted.enlist {seen : List Entry} {jobs : List Job} (enlisted : Enlisted seen jobs)
    (entry : Entry)
    : Enlisted (seen ++ [entry]) (enlist jobs entry) := by
  unfold Workload.enlist
  by_cases present : ∃ job ∈ jobs, Matches job entry
  · rw [if_pos (by simpa [Matches] using present)]
    refine cast (congrArg (Enlisted _) (List.map_congr_left fun job _ => ?_))
      (enlisted.join present)
    simp only [receive, List.contains_eq_mem, decide_eq_false_iff_not]
  · have absent : ∀ job ∈ jobs, ¬ Matches job entry :=
      fun job member matching => present ⟨job, member, matching⟩
    rw [if_neg (by simpa [Matches] using absent)]
    exact enlisted.extend absent

/-- All entries are divided correctly, by induction on the entries to come. -/
theorem Enlisted.foldl {seen : List Entry} {jobs : List Job} (enlisted : Enlisted seen jobs)
    (coming : List Entry)
    : Enlisted (seen ++ coming) (coming.foldl Workload.enlist jobs) := by
  induction coming generalizing seen jobs with
  | nil => simpa using enlisted
  | cons entry rest ih => simpa using ih (enlisted.enlist entry)

theorem enlisted_jobs (found : List Entry) : Enlisted found (found.foldl Workload.enlist []) := by
  have start : Enlisted [] [] := by constructor <;> simp
  simpa using start.foldl found

-----------------------------------------------------------------------------------------
-- Dependencies between jobs follow the paths between their nodes
-----------------------------------------------------------------------------------------

/-- One job depends directly on another. -/
def DependsOn (work : Workload) (job other : Nat) : Prop :=
  other ∈ work.dependenciesOf job

/-- Dependencies run between numbers of jobs only. -/
def Bounded (work : Workload) : Prop :=
  ∀ job other, work.DependsOn job other → job < work.size ∧ other < work.size

/-- The search for chosen nodes meets exactly those on a path whose inner nodes are not chosen. -/
theorem mem_nearby_iff {graph : Graph} (inside : graph.EdgesInside) (chosen : List Nat)
    (origin node : Nat)
    : node ∈ nearby graph chosen origin
      ↔ ∃ first,
          graph.Edge origin first
          ∧ ReflTransGen (fun one other => other ∈ onward graph chosen one) first node := by
  refine Reach.mem_closure_iff (inside origin) ?_ node
  intro one other member
  unfold onward at member
  split at member
  · exact absurd member List.not_mem_nil
  · exact inside one other member

/-- A node met by the search lies at the end of a path. -/
theorem path_of_mem_nearby {graph : Graph} (inside : graph.EdgesInside) {chosen : List Nat}
    {origin node : Nat} (met : node ∈ nearby graph chosen origin)
    : graph.Path origin node := by
  obtain ⟨first, edge, walk⟩ := (mem_nearby_iff inside chosen origin node).mp met
  refine TransGen.head' edge (ReflTransGen.mono (fun one other member => ?_) _ _ walk)
  unfold onward at member
  split at member
  · exact absurd member List.not_mem_nil
  · exact member

/-- A node that is not chosen is passed: what the search meets from there, it meets from before. -/
theorem mem_nearby_of_edge {graph : Graph} (inside : graph.EdgesInside) {chosen : List Nat}
    {origin skipped node : Nat} (edge : graph.Edge origin skipped) (absent : skipped ∉ chosen)
    (met : node ∈ nearby graph chosen skipped)
    : node ∈ nearby graph chosen origin := by
  obtain ⟨first, step, walk⟩ := (mem_nearby_iff inside chosen skipped node).mp met
  refine (mem_nearby_iff inside chosen origin node).mpr ⟨skipped, edge, walk.head ?_⟩
  simpa [onward, absent, Graph.Edge] using step

/-- A path to a chosen node is cut at the chosen nodes it passes, and each piece is met by a
search from its start. By induction on the path from its front: a first node that is chosen
begins a new piece, one that is not is passed by the first piece.
-/
theorem pieces_of_path {graph : Graph} (inside : graph.EdgesInside) {chosen : List Nat}
    {origin node : Nat} (path : graph.Path origin node) (target : node ∈ chosen)
    : TransGen (fun one other => other ∈ nearby graph chosen one ∧ other ∈ chosen) origin
        node := by
  induction path using TransGen.head_induction_on with
  | single edge =>
      exact .single ⟨(mem_nearby_iff inside chosen _ _).mpr ⟨_, edge, .refl⟩, target⟩
  | @head start next edge _ pieces =>
      by_cases present : next ∈ chosen
      · refine TransGen.head ⟨?_, present⟩ pieces
        exact (mem_nearby_iff inside chosen start next).mpr ⟨next, edge, .refl⟩
      · rcases TransGen.head'_iff.mp pieces with ⟨middle, piece, rest⟩
        exact TransGen.head' ⟨mem_nearby_of_edge inside edge present piece.1, piece.2⟩ rest

/-- A job depends on another exactly when the search from its node meets the node of the other. -/
theorem dependsOn_iff {graph : Graph} {jobs : List Job} {number other : Nat}
    : DependsOn ⟨jobs, jobs.map (jobDependencies graph jobs)⟩ number other
      ↔ ∃ job otherJob,
          jobs[number]? = some job
          ∧ jobs[other]? = some otherJob
          ∧ otherJob.node ∈ nearby graph (jobs.map Job.node) job.node := by
  unfold DependsOn dependenciesOf
  rw [List.getElem?_map]
  cases origin : jobs[number]? with
  | none => simp
  | some job =>
      simp only [Option.map_some, Option.getD_some, jobDependencies, List.mem_filter,
        List.mem_range]
      cases target : jobs[other]? with
      | none => simp
      | some otherJob =>
          have known : other < jobs.length := (List.getElem?_eq_some_iff.mp target).1
          simp [known]

theorem bounded_jobs (graph : Graph) (jobs : List Job)
    : Bounded ⟨jobs, jobs.map (jobDependencies graph jobs)⟩ := by
  intro number other step
  obtain ⟨first, second, firstAt, secondAt, _⟩ := dependsOn_iff.mp step
  exact ⟨(List.getElem?_eq_some_iff.mp firstAt).1, (List.getElem?_eq_some_iff.mp secondAt).1⟩

/-- One job leads to another exactly when a path leads from its node to the node of the other.
Every piece of the path ends at a node with jobs, all of which its start depends on.
-/
theorem leads_iff_path {graph : Graph} (inside : graph.EdgesInside) {jobs : List Job}
    {number other : Nat} {job otherJob : Job} (origin : jobs[number]? = some job)
    (target : jobs[other]? = some otherJob)
    : TransGen (DependsOn ⟨jobs, jobs.map (jobDependencies graph jobs)⟩) number other
      ↔ graph.Path job.node otherJob.node := by
  constructor
  · intro leads
    induction leads generalizing otherJob with
    | single step =>
        obtain ⟨first, second, firstAt, secondAt, met⟩ := dependsOn_iff.mp step
        cases origin.symm.trans firstAt
        cases target.symm.trans secondAt
        exact path_of_mem_nearby inside met
    | tail _ step ih =>
        obtain ⟨first, second, firstAt, secondAt, met⟩ := dependsOn_iff.mp step
        cases target.symm.trans secondAt
        exact (ih firstAt).trans (path_of_mem_nearby inside met)
  · intro path
    have chosen : otherJob.node ∈ jobs.map Job.node :=
      List.mem_map_of_mem (List.mem_of_getElem? target)
    -- Each piece ends at a node with jobs, so the pieces are dependencies between jobs.
    have pieces := pieces_of_path inside path chosen
    clear path
    generalize start : job.node = node at pieces
    induction pieces using TransGen.head_induction_on generalizing number job with
    | single piece =>
        subst start
        exact .single (dependsOn_iff.mpr ⟨job, otherJob, origin, target, piece.1⟩)
    | head piece _ ih =>
        subst start
        obtain ⟨middle, member, same⟩ := List.mem_map.mp piece.2
        obtain ⟨position, found⟩ := List.mem_iff_getElem?.mp member
        have step := dependsOn_iff.mpr ⟨job, middle, origin, found, same ▸ piece.1⟩
        exact TransGen.head step (ih found same)

-----------------------------------------------------------------------------------------
-- Work seen from the chosen states
-----------------------------------------------------------------------------------------

theorem mem_statesOf_iff {work : Workload} {number : Nat} {state : StateId}
    : state ∈ work.statesOf number
      ↔ ∃ job, work.jobs[number]? = some job ∧ state ∈ job.states := by
  unfold statesOf
  cases work.jobs[number]? with
  | none => simp
  | some job => simp

theorem exists_mem_statesOf_iff {work : Workload} {state : StateId}
    : (∃ number, state ∈ work.statesOf number) ↔ ∃ job ∈ work.jobs, state ∈ job.states := by
  constructor
  · rintro ⟨number, listed⟩
    obtain ⟨job, jobAt, inside⟩ := mem_statesOf_iff.mp listed
    exact ⟨job, List.mem_of_getElem? jobAt, inside⟩
  · rintro ⟨job, jobMember, listed⟩
    obtain ⟨number, jobAt⟩ := List.mem_iff_getElem?.mp jobMember
    exact ⟨number, mem_statesOf_iff.mpr ⟨job, jobAt, listed⟩⟩

/-- A workload represents the chosen states of a graph. Schedules are judged by this alone: by the
states that jobs hold, their membership, and the paths that dependencies stand for.
-/
structure Represents (work : Workload) (graph : Graph) (chosen : List StateId) : Prop where
  bounded : work.Bounded
  mem_iff : ∀ state, state ∈ chosen ↔ ∃ job, state ∈ work.statesOf job
  unique : (work.jobs.flatMap Job.states).Nodup
  inhabited : ∀ job ∈ work.jobs, job.states ≠ []
  entryFound
    : ∀ job ∈ work.jobs,
        ∀ state ∈ job.states,
          ∃ entry,
            graph.entry? state = some entry
            ∧ entry.node = job.node
            ∧ entry.cluster = job.cluster
  leads_iff
    : ∀ number other (job otherJob : Job),
        work.jobs[number]? = some job
        → work.jobs[other]? = some otherJob
        → (TransGen work.DependsOn number other ↔ graph.Path job.node otherJob.node)

/-- The states of jobs that divide entries of distinct states are distinct throughout: a state
listed by two jobs would have an entry that matches both.
-/
theorem Enlisted.flatMap_nodup {seen : List Entry} {jobs : List Job}
    (enlisted : Enlisted seen jobs)
    (functional : ∀ entry ∈ seen, ∀ other ∈ seen, entry.state = other.state → entry = other)
    : (jobs.flatMap Job.states).Nodup := by
  refine List.nodup_flatMap.mpr ⟨enlisted.unique, ?_⟩
  refine enlisted.distinct.imp_of_mem ?_
  intro job other member otherMember different state listed otherListed
  obtain ⟨entry, seenEntry, same, matching⟩ := (enlisted.holds job member state).mp listed
  obtain ⟨otherEntry, otherSeen, otherSame, otherMatching⟩ :=
    (enlisted.holds other otherMember state).mp otherListed
  have equal := functional entry seenEntry otherEntry otherSeen (same.trans otherSame.symm)
  subst otherEntry
  exact different
    ⟨matching.1.trans otherMatching.1.symm, matching.2.trans otherMatching.2.symm⟩

/-- The entries of chosen states are what the graph has for them. -/
theorem entry_of_mem_entries {graph : Graph} {chosen : List StateId} {found : List Entry}
    (looked : entries graph chosen = .ok found) {entry : Entry} (member : entry ∈ found)
    : entry.state ∈ chosen ∧ graph.entry? entry.state = some entry := by
  have listed : some entry ∈ chosen.map graph.entry? := by
    rw [entries_ok_iff.mp looked]
    exact List.mem_map_of_mem member
  obtain ⟨state, chosenState, entryAt⟩ := List.mem_map.mp listed
  rw [Graph.entry?_state entryAt]
  exact ⟨chosenState, entryAt⟩

theorem exists_mem_entries {graph : Graph} {chosen : List StateId} {found : List Entry}
    (looked : entries graph chosen = .ok found) {state : StateId} (member : state ∈ chosen)
    : ∃ entry ∈ found, entry.state = state := by
  have listed : graph.entry? state ∈ found.map some :=
    entries_ok_iff.mp looked ▸ List.mem_map_of_mem member
  obtain ⟨entry, entryMember, entryAt⟩ := List.mem_map.mp listed
  exact ⟨entry, entryMember, Graph.entry?_state entryAt.symm⟩

/-- The jobs that divide entries hold exactly the states of the entries. -/
theorem Enlisted.exists_job_iff {seen : List Entry} {jobs : List Job}
    (enlisted : Enlisted seen jobs) {state : StateId}
    : (∃ job ∈ jobs, state ∈ job.states) ↔ ∃ entry ∈ seen, entry.state = state := by
  constructor
  · rintro ⟨job, jobMember, listed⟩
    obtain ⟨entry, entryMember, same, _⟩ := (enlisted.holds job jobMember state).mp listed
    exact ⟨entry, entryMember, same⟩
  · rintro ⟨entry, entryMember, same⟩
    obtain ⟨job, jobMember, matching⟩ := enlisted.covers entry entryMember
    exact ⟨job, jobMember,
      (enlisted.holds job jobMember state).mpr ⟨entry, entryMember, same, matching⟩⟩

/-- The work made for the chosen states of a graph represents them. -/
theorem represents_ofStates {graph : Graph} (inside : graph.EdgesInside)
    {chosen : List StateId} {work : Workload} (made : ofStates graph chosen = .ok work)
    : work.Represents graph chosen := by
  unfold ofStates at made
  cases looked : entries graph chosen with
  | error _ => simp [looked] at made
  | ok found =>
      simp only [looked, Except.ok.injEq] at made
      have enlisted := enlisted_jobs found
      generalize found.foldl Workload.enlist [] = jobs at made enlisted
      subst work
      refine ⟨bounded_jobs graph jobs, ?_, ?_, enlisted.inhabited, ?_, ?_⟩
      · intro state
        rw [exists_mem_statesOf_iff, enlisted.exists_job_iff]
        constructor
        · exact exists_mem_entries looked
        · rintro ⟨entry, entryMember, rfl⟩
          exact (entry_of_mem_entries looked entryMember).1
      · refine enlisted.flatMap_nodup ?_
        intro entry entryMember other otherMember same
        have entryAt := (entry_of_mem_entries looked entryMember).2
        rw [same] at entryAt
        exact Option.some.inj (entryAt.symm.trans (entry_of_mem_entries looked otherMember).2)
      · intro job jobMember state listed
        obtain ⟨entry, entryMember, rfl, matching⟩ :=
          (enlisted.holds job jobMember state).mp listed
        exact ⟨entry, (entry_of_mem_entries looked entryMember).2, matching.1.symm,
          matching.2.symm⟩
      · intro number other job otherJob origin target
        exact leads_iff_path inside origin target

namespace Represents

variable {work : Workload} {graph : Graph} {chosen : List StateId}

/-- One job leads to another exactly when the states of the one need those of the other. -/
theorem leads_iff_needs (represents : work.Represents graph chosen) {number other : Nat}
    {state otherState : StateId} (listed : state ∈ work.statesOf number)
    (otherListed : otherState ∈ work.statesOf other)
    : TransGen work.DependsOn number other ↔ graph.Needs state otherState := by
  obtain ⟨job, jobAt, member⟩ := mem_statesOf_iff.mp listed
  obtain ⟨otherJob, otherAt, otherMember⟩ := mem_statesOf_iff.mp otherListed
  obtain ⟨entry, entryAt, node, _⟩ :=
    represents.entryFound job (List.mem_of_getElem? jobAt) state member
  obtain ⟨otherEntry, otherEntryAt, otherNode, _⟩ :=
    represents.entryFound otherJob (List.mem_of_getElem? otherAt) otherState otherMember
  rw [represents.leads_iff number other job otherJob jobAt otherAt, ← node, ← otherNode]
  constructor
  · intro path
    exact ⟨entry, otherEntry, entryAt, otherEntryAt, path⟩
  · rintro ⟨first, second, firstAt, secondAt, path⟩
    cases entryAt.symm.trans firstAt
    cases otherEntryAt.symm.trans secondAt
    exact path

/-- The states of a job have the cluster of the job. -/
theorem stateCluster (represents : work.Represents graph chosen) {number : Nat}
    {state : StateId} (listed : state ∈ work.statesOf number)
    : graph.stateCluster? state = work.clusterOf number := by
  obtain ⟨job, jobAt, member⟩ := mem_statesOf_iff.mp listed
  obtain ⟨entry, entryAt, _, cluster⟩ :=
    represents.entryFound job (List.mem_of_getElem? jobAt) state member
  simp [Graph.stateCluster?, clusterOf, entryAt, jobAt, cluster]

end Represents

end Workload

end StepPlan
