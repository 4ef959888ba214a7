import StepPlan.Proofs.Schedule.Completeness

/-! Groups are separated only where they have to be. A job starts a group of its own only if it
cannot join the latest one, so of two neighbouring groups with one membership the later begins
with a state that reaches the earlier, and no chosen state lies between.
-/

namespace StepPlan

open Relation

namespace Workload

-----------------------------------------------------------------------------------------
-- The first job of a group could not join the group before
-----------------------------------------------------------------------------------------

/-- The first job of the later group could not join the earlier one: if the earlier group has its
membership, the job depends on something in it.
-/
def Separates (work : Workload) (later earlier : List Nat) : Prop :=
  ∀ first,
    later.head? = some first
    → earlier.head?.bind work.clusterOf = work.clusterOf first
    → ∃ other ∈ earlier, work.DependsOn first other

/-- Only its first job separates a group from the one before it. -/
theorem Separates.join {work : Workload} {later earlier : List Nat} {first : Nat}
    (separates : work.Separates later earlier) (begins : later.head? = some first) (job : Nat)
    : work.Separates (later ++ [job]) earlier := by
  intro found foundAt
  apply separates found
  simpa [List.head?_append, begins] using foundAt

/-- A job that may not join a group is separated from it. -/
theorem Collected.separates {work : Workload} {issued group : List Nat}
    {earlier : List (List Nat)} (collected : work.Collected issued (group :: earlier)) {job : Nat}
    (refused : work.joins group job ≠ true)
    : work.Separates [job] group := by
  intro first firstAt membership
  have same : job = first := Option.some.inj firstAt
  subst first
  have inhabited := collected.inhabited group List.mem_cons_self
  have lastAt := List.getLast?_eq_some_getLast inhabited
  have uniform := collected.uniform group List.mem_cons_self _ (List.getLast_mem inhabited)
  by_contra free
  apply refused
  apply joins_iff.mpr
  refine ⟨⟨_, lastAt, uniform.symm.trans membership⟩, ?_⟩
  intro other member depends
  exact free ⟨other, member, depends⟩

/-- One more job keeps neighbouring groups separate, whether it joins or starts a group. -/
theorem Collected.separates_collect {work : Workload} {issued : List Nat}
    {groups : List (List Nat)} (collected : work.Collected issued groups)
    (separate : groups.IsChain work.Separates) (job : Nat)
    : (work.collect groups job).IsChain work.Separates := by
  cases groups with
  | nil => exact List.isChain_singleton _
  | cons group earlier =>
      by_cases joining : work.joins group job = true
      · rw [collect_of_joins joining]
        cases earlier with
        | nil => exact List.isChain_singleton _
        | cons before rest =>
            obtain ⟨apart, further⟩ := List.isChain_cons_cons.mp separate
            have begins := List.head?_eq_some_head (collected.inhabited group List.mem_cons_self)
            exact .cons_cons (apart.join begins job) further
      · rw [collect_of_not_joins joining]
        exact .cons_cons (collected.separates joining) separate

/-- Neighbouring groups of a whole order are separate, by induction on the jobs to come. -/
theorem Collected.separates_foldl {work : Workload} {issued : List Nat}
    {groups : List (List Nat)} (collected : work.Collected issued groups)
    (separate : groups.IsChain work.Separates) (coming : List Nat)
    : (coming.foldl work.collect groups).IsChain work.Separates := by
  induction coming generalizing issued groups with
  | nil => exact separate
  | cons job rest ih => exact ih (collected.collect job) (collected.separates_collect separate job)

/-- What holds of all neighbours in the list of groups, which has the latest in front, holds of
groups at neighbouring positions.
-/
theorem jobGroups_neighbours {work : Workload} {relation : List Nat → List Nat → Prop}
    (chain : (work.order.foldl work.collect []).IsChain relation) {position : Nat}
    {earlier later : List Nat} (earlierAt : work.jobGroups[position]? = some earlier)
    (laterAt : work.jobGroups[position + 1]? = some later)
    : relation later earlier := by
  have forward : work.jobGroups.IsChain fun before after => relation after before :=
    List.isChain_reverse.mpr chain
  obtain ⟨known, rfl⟩ := List.getElem?_eq_some_iff.mp laterAt
  obtain ⟨_, rfl⟩ := List.getElem?_eq_some_iff.mp earlierAt
  exact List.isChain_iff_getElem.mp forward position known

theorem jobGroups_separates {work : Workload} {position : Nat} {earlier later : List Nat}
    (earlierAt : work.jobGroups[position]? = some earlier)
    (laterAt : work.jobGroups[position + 1]? = some later)
    : work.Separates later earlier := by
  have separate := work.collected_nil.separates_foldl .nil work.order
  exact jobGroups_neighbours separate earlierAt laterAt

end Workload

-----------------------------------------------------------------------------------------
-- Paths past nodes that are not chosen
-----------------------------------------------------------------------------------------

namespace Graph

/-- A non-empty path of dependencies, all inner nodes of which hold none of the chosen states. -/
inductive PathOutside (graph : Graph) (chosen : List StateId) : Nat → Nat → Prop
  | edge {node other : Nat} (edge : graph.Edge node other) : PathOutside graph chosen node other
  | pass {node middle other : Nat} (edge : graph.Edge node middle)
    (outside : ¬ graph.Holds chosen middle) (rest : PathOutside graph chosen middle other)
    : PathOutside graph chosen node other

/-- The node of one state leads to the node of another past nodes that hold none of the chosen
states.
-/
def NeedsNext (graph : Graph) (chosen : List StateId) (state other : StateId) : Prop :=
  ∃ entry otherEntry,
    graph.entry? state = some entry
    ∧ graph.entry? other = some otherEntry
    ∧ graph.PathOutside chosen entry.node otherEntry.node

/-- The search for chosen nodes meets the ends of such paths, by induction on the way it takes after
its first step.
-/
theorem pathOutside_of_mem_nearby {graph : Graph} (inside : graph.EdgesInside)
    {chosen : List StateId} {nodes : List Nat}
    (listed : ∀ node, graph.Holds chosen node → node ∈ nodes) {origin node : Nat}
    (met : node ∈ Workload.nearby graph nodes origin)
    : graph.PathOutside chosen origin node := by
  obtain ⟨first, edge, walk⟩ := (Workload.mem_nearby_iff inside nodes origin node).mp met
  clear met
  induction walk using ReflTransGen.head_induction_on generalizing origin with
  | refl => exact .edge edge
  | @head start next step _ ih =>
      unfold Workload.onward at step
      split at step
      · exact absurd step List.not_mem_nil
      · rename_i absent
        refine .pass edge (fun held => absent ?_) (ih step)
        simpa using listed start held

end Graph

namespace Workload

/-- The work for the chosen states depends on what the search from a job meets. -/
theorem dependsOn_ofStates {graph : Graph} {chosen : List StateId} {work : Workload}
    (made : ofStates graph chosen = .ok work) {number other : Nat}
    (depends : work.DependsOn number other)
    : ∃ job otherJob,
        work.jobs[number]? = some job
        ∧ work.jobs[other]? = some otherJob
        ∧ otherJob.node ∈ nearby graph (work.jobs.map Job.node) job.node := by
  unfold ofStates at made
  cases looked : entries graph chosen with
  | error _ => simp [looked] at made
  | ok found =>
      simp only [looked, Except.ok.injEq] at made
      subst work
      exact dependsOn_iff.mp depends

namespace Represents

variable {work : Workload} {graph : Graph} {chosen : List StateId}

/-- The state of a job is on the node of the job. -/
theorem exists_entry (represents : work.Represents graph chosen) {number : Nat} {job : Job}
    (jobAt : work.jobs[number]? = some job) {state : StateId}
    (listed : state ∈ work.statesOf number)
    : ∃ entry, graph.entry? state = some entry ∧ entry.node = job.node := by
  obtain ⟨found, foundAt, member⟩ := mem_statesOf_iff.mp listed
  cases jobAt.symm.trans foundAt
  obtain ⟨entry, entryAt, node, _⟩ :=
    represents.entryFound job (List.mem_of_getElem? jobAt) state member
  exact ⟨entry, entryAt, node⟩

/-- Every job has a state. -/
theorem exists_state (represents : work.Represents graph chosen) {number : Nat}
    (known : number < work.size)
    : ∃ state, state ∈ work.statesOf number := by
  have jobAt : work.jobs[number]? = some work.jobs[number] := List.getElem?_eq_getElem known
  obtain ⟨state, member⟩ :=
    List.exists_mem_of_ne_nil _ (represents.inhabited _ (List.mem_of_getElem? jobAt))
  exact ⟨state, mem_statesOf_iff.mpr ⟨_, jobAt, member⟩⟩

/-- Where one job depends on another, the states of the one need those of the other, with no chosen
state between them.
-/
theorem needsNext (represents : work.Represents graph chosen) (inside : graph.EdgesInside)
    (made : ofStates graph chosen = .ok work) {number other : Nat}
    (depends : work.DependsOn number other) {state otherState : StateId}
    (listed : state ∈ work.statesOf number) (otherListed : otherState ∈ work.statesOf other)
    : graph.NeedsNext chosen state otherState := by
  obtain ⟨job, otherJob, jobAt, otherAt, met⟩ := dependsOn_ofStates made depends
  obtain ⟨entry, entryAt, node⟩ := represents.exists_entry jobAt listed
  obtain ⟨otherEntry, otherEntryAt, otherNode⟩ := represents.exists_entry otherAt otherListed
  refine ⟨entry, otherEntry, entryAt, otherEntryAt, ?_⟩
  rw [node, otherNode]
  refine Graph.pathOutside_of_mem_nearby inside (fun place holds => ?_) met
  obtain ⟨_, found, foundAt, same⟩ := represents.holds_iff.mp holds
  exact List.mem_map.mpr ⟨found, List.mem_of_getElem? foundAt, same⟩

end Represents

/-- A group begins with the first state of its first job. -/
theorem head?_states_toGroup {work : Workload} {first : Nat} {rest : List Nat}
    (inhabited : work.statesOf first ≠ [])
    : (work.toGroup (first :: rest)).states.head? = (work.statesOf first).head? := by
  simp [toGroup, List.head?_append, List.head?_eq_some_head inhabited]

end Workload

-----------------------------------------------------------------------------------------
-- Neighbouring groups of a schedule
-----------------------------------------------------------------------------------------

namespace Graph

/-- If two neighbouring groups of a schedule have the same membership, the first state of the later
one needs a state of the earlier one, and no chosen state lies between the two.
-/
theorem schedule_separates {graph : Graph} (constructed : graph.Constructed)
    {chosen : List StateId} {groups : List Group}
    (scheduled : graph.schedule chosen = .ok groups) (position : Nat) {earlier later : Group}
    (earlierAt : groups[position]? = some earlier)
    (laterAt : groups[position + 1]? = some later) (same : earlier.cluster = later.cluster)
    : ∃ first,
        later.states.head? = some first
        ∧ ∃ other ∈ earlier.states, graph.NeedsNext chosen first other := by
  obtain ⟨work, made, done, rfl⟩ := exists_work scheduled
  have inside := constructed.edgesInside
  have represents := Workload.represents_ofStates inside made
  rw [Workload.groups, List.getElem?_map] at earlierAt laterAt
  obtain ⟨jobs, jobsAt, rfl⟩ := Option.map_eq_some_iff.mp earlierAt
  obtain ⟨laterJobs, laterJobsAt, rfl⟩ := Option.map_eq_some_iff.mp laterAt
  have separates := Workload.jobGroups_separates jobsAt laterJobsAt
  obtain ⟨first, rest, rfl⟩ :=
    List.exists_cons_of_ne_nil (Workload.jobGroups_ne_nil (List.mem_of_getElem? laterJobsAt))
  obtain ⟨other, otherInside, depends⟩ := separates first rfl same
  obtain ⟨known, otherKnown⟩ := represents.bounded first other depends
  have inhabited : work.statesOf first ≠ [] :=
    (represents.exists_state known).elim fun _ listed => List.ne_nil_of_mem listed
  obtain ⟨otherState, otherListed⟩ := represents.exists_state otherKnown
  refine ⟨(work.statesOf first).head inhabited, ?_, otherState, ?_, ?_⟩
  · exact (Workload.head?_states_toGroup inhabited).trans (List.head?_eq_some_head inhabited)
  · exact List.mem_flatMap.mpr ⟨other, otherInside, otherListed⟩
  · exact represents.needsNext inside made depends (List.head_mem inhabited) otherListed

/-- The graph over the pairs and the link when no cluster was mined. -/
def looseGraph : Graph :=
  (build pairsProgram .empty none pairsProgram.registry.ids).1.toOption.getD .empty

theorem looseGraph_constructed : looseGraph.Constructed := by
  have built
      : (build pairsProgram .empty none pairsProgram.registry.ids).1 = .ok looseGraph := by
    cbv
  exact constructed_of_build built

/-- Without clusters, `a2` and `b1` are kept apart because `a2` reads `b1` through the link, which
is not chosen.
-/
theorem schedule_separates_link
    : looseGraph.schedule [.ofIndex 1, .ofIndex 0, .ofIndex 2]
        = .ok [⟨none, [.ofIndex 0, .ofIndex 2]⟩, ⟨none, [.ofIndex 1]⟩]
      ∧ ∃ other ∈ [.ofIndex 0, .ofIndex 2],
          looseGraph.NeedsNext [.ofIndex 1, .ofIndex 0, .ofIndex 2] (.ofIndex 1) other := by
  have scheduled
      : looseGraph.schedule [.ofIndex 1, .ofIndex 0, .ofIndex 2]
        = .ok [⟨none, [.ofIndex 0, .ofIndex 2]⟩, ⟨none, [.ofIndex 1]⟩] := by
    cbv
  obtain ⟨first, begins, other, member, needs⟩ :=
    schedule_separates looseGraph_constructed scheduled 0 rfl rfl rfl
  cases begins
  exact ⟨scheduled, other, member, needs⟩

end Graph

end StepPlan
