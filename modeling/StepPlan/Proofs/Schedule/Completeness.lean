import StepPlan.Proofs.Schedule.Soundness

/-! Completeness of schedules. Scheduling known states fails only for a cycle through a node
that holds one of them, and the names it then reports are those of the nodes that hold chosen
states and lead to such a cycle. Unknown states are reported before anything is scheduled.
-/

namespace StepPlan

open Relation

namespace Graph

/-- A node holds one of the chosen states. -/
def Holds (graph : Graph) (chosen : List StateId) (node : Nat) : Prop :=
  ∃ state ∈ chosen, ∃ entry, graph.entry? state = some entry ∧ entry.node = node

/-- A node leads to a cycle through a node that holds one of the chosen states, or lies on one. -/
def Stuck (graph : Graph) (chosen : List StateId) (node : Nat) : Prop :=
  ∃ cyclic,
    graph.Holds chosen cyclic
    ∧ graph.Path cyclic cyclic
    ∧ (node = cyclic ∨ graph.Path node cyclic)

theorem mem_states_iff {graph : Graph} {state : StateId}
    : state ∈ graph.states ↔ graph.entry? state ≠ none := by
  unfold states entry?
  rw [ne_eq, List.find?_eq_none]
  simp

end Graph

namespace Workload

/-- Work can be made for known states. -/
theorem exists_ofStates {graph : Graph} {chosen : List StateId}
    (known : ∀ state ∈ chosen, state ∈ graph.states)
    : ∃ work, ofStates graph chosen = .ok work := by
  obtain ⟨found, lookups⟩ : ∃ found : List Entry, chosen.map graph.entry? = found.map some := by
    induction chosen with
    | nil => exact ⟨[], rfl⟩
    | cons state rest ih =>
        obtain ⟨found, later⟩ := ih fun other member => known other (by simp [member])
        obtain ⟨entry, entryAt⟩ :=
          Option.ne_none_iff_exists'.mp (Graph.mem_states_iff.mp (known state (by simp)))
        exact ⟨entry :: found, by simp [later, entryAt]⟩
  unfold ofStates
  rw [entries_ok_iff.mpr lookups]
  exact ⟨_, rfl⟩

namespace Represents

variable {work : Workload} {graph : Graph} {chosen : List StateId}

/-- The nodes that hold chosen states are those of the jobs, since no job is without states. -/
theorem holds_iff (represents : work.Represents graph chosen) {node : Nat}
    : graph.Holds chosen node
      ↔ ∃ (number : Nat) (job : Job), work.jobs[number]? = some job ∧ job.node = node := by
  constructor
  · rintro ⟨state, member, entry, entryAt, place⟩
    obtain ⟨number, listed⟩ := (represents.mem_iff state).mp member
    obtain ⟨job, jobAt, inside⟩ := mem_statesOf_iff.mp listed
    obtain ⟨found, foundAt, foundPlace, _⟩ :=
      represents.entryFound job (List.mem_of_getElem? jobAt) state inside
    cases entryAt.symm.trans foundAt
    exact ⟨number, job, jobAt, foundPlace.symm.trans place⟩
  · rintro ⟨number, job, jobAt, place⟩
    have jobMember := List.mem_of_getElem? jobAt
    obtain ⟨state, inside⟩ := List.exists_mem_of_ne_nil _ (represents.inhabited job jobMember)
    obtain ⟨entry, entryAt, entryPlace, _⟩ := represents.entryFound job jobMember state inside
    have listed := mem_statesOf_iff.mpr ⟨job, jobAt, inside⟩
    have member := (represents.mem_iff state).mpr ⟨number, listed⟩
    exact ⟨state, member, entry, entryAt, entryPlace.trans place⟩

/-- A job is left behind exactly when its node is stuck. Jobs on one node share its fate, because
paths do not tell them apart.
-/
theorem mem_left_iff_stuck (represents : work.Represents graph chosen) {number : Nat}
    {job : Job} (jobAt : work.jobs[number]? = some job)
    : number ∈ work.left ↔ graph.Stuck chosen job.node := by
  rw [mem_left_iff_leads_to_cycle represents.bounded]
  constructor
  · rintro ⟨_, other, leads, cycle⟩
    have known := (TransGen.head'_iff.mp cycle).elim fun next step =>
      (represents.bounded other next step.1).1
    have otherAt : work.jobs[other]? = some work.jobs[other] := List.getElem?_eq_getElem known
    refine ⟨work.jobs[other].node, represents.holds_iff.mpr ⟨other, _, otherAt, rfl⟩, ?_, ?_⟩
    · exact (represents.leads_iff other other _ _ otherAt otherAt).mp cycle
    · rcases reflTransGen_iff_eq_or_transGen.mp leads with same | path
      · subst other
        exact Or.inl (congrArg Job.node (Option.some.inj (jobAt.symm.trans otherAt)))
      · exact Or.inr ((represents.leads_iff number other _ _ jobAt otherAt).mp path)
  · rintro ⟨cyclic, holds, cycle, way⟩
    refine ⟨(List.getElem?_eq_some_iff.mp jobAt).1, ?_⟩
    rcases way with rfl | path
    · exact ⟨number, .refl, (represents.leads_iff number number _ _ jobAt jobAt).mpr cycle⟩
    · obtain ⟨other, otherJob, otherAt, rfl⟩ := represents.holds_iff.mp holds
      refine ⟨other, ?_, (represents.leads_iff other other _ _ otherAt otherAt).mpr cycle⟩
      exact ((represents.leads_iff number other _ _ jobAt otherAt).mpr path).to_reflTransGen

/-- Nothing is left exactly when no node that holds a chosen state lies on a cycle. -/
theorem left_eq_nil_iff (represents : work.Represents graph chosen)
    : work.left = [] ↔ ∀ node, graph.Holds chosen node → ¬ graph.Path node node := by
  rw [List.eq_nil_iff_forall_not_mem]
  constructor
  · intro none node holds cycle
    obtain ⟨number, job, jobAt, rfl⟩ := represents.holds_iff.mp holds
    exact none number
      ((represents.mem_left_iff_stuck jobAt).mpr ⟨job.node, holds, cycle, Or.inl rfl⟩)
  · intro acyclic number behind
    have known := (mem_left_iff.mp behind).1
    have jobAt : work.jobs[number]? = some work.jobs[number] := List.getElem?_eq_getElem known
    obtain ⟨cyclic, holds, cycle, _⟩ := (represents.mem_left_iff_stuck jobAt).mp behind
    exact acyclic cyclic holds cycle

/-- The names of the jobs left behind are those of the stuck nodes that hold chosen states. -/
theorem mem_jobNames_left (represents : work.Represents graph chosen) {name : String}
    : name ∈ graph.jobNames work work.left
      ↔ ∃ node,
          graph.Holds chosen node ∧ graph.Stuck chosen node ∧ graph.nodeName node = name := by
  unfold Graph.jobNames
  simp only [List.mem_filterMap, Option.map_eq_some_iff]
  constructor
  · rintro ⟨number, behind, job, jobAt, same⟩
    exact ⟨job.node, represents.holds_iff.mpr ⟨number, job, jobAt, rfl⟩,
      (represents.mem_left_iff_stuck jobAt).mp behind, same⟩
  · rintro ⟨node, holds, stuck, same⟩
    obtain ⟨number, job, jobAt, rfl⟩ := represents.holds_iff.mp holds
    exact ⟨number, (represents.mem_left_iff_stuck jobAt).mpr stuck, job, jobAt, same⟩

end Represents

end Workload

namespace Graph

/-- Known states can be scheduled exactly when no node that holds one of them lies on a cycle. If
one does, the failure names the nodes that are stuck. An unknown state fails before that, with
the first unknown one in the list.
-/
theorem schedule_complete {graph : Graph} (constructed : graph.Constructed)
    (chosen : List StateId)
    : ((∀ state ∈ chosen, state ∈ graph.states)
        → ((∃ groups, graph.schedule chosen = .ok groups)
            ↔ ∀ node, graph.Holds chosen node → ¬ graph.Path node node)
          ∧ ∀ error,
              graph.schedule chosen = .error error
              → ∃ remaining cycle,
                  error = .cycleDetected remaining cycle
                  ∧ ∀ name,
                      name ∈ remaining
                      ↔ ∃ node,
                          graph.Holds chosen node
                          ∧ graph.Stuck chosen node
                          ∧ graph.nodeName node = name)
      ∧ ∀ before state after,
          chosen = before ++ state :: after
          → (∀ earlier ∈ before, earlier ∈ graph.states)
          → state ∉ graph.states
          → graph.schedule chosen = .error (.unknownState state) := by
  refine ⟨fun known => ?_, ?_⟩
  · obtain ⟨work, made⟩ := Workload.exists_ofStates known
    have represents := Workload.represents_ofStates constructed.edgesInside made
    rw [← represents.left_eq_nil_iff, schedule]
    rcases scheduleBy_of_made ComponentSearch.depthFirst made with ⟨done, ok⟩ | ⟨behind, failed⟩
    · simp [done, ok]
    · refine ⟨by simp [behind, failed], ?_⟩
      intro error failure
      rw [← Except.error.inj (failed.symm.trans failure)]
      refine ⟨_, _, rfl, fun name => ?_⟩
      rw [List.mem_eraseDups]
      exact represents.mem_jobNames_left
  · rintro before state after rfl known unknown
    have missing : graph.entry? state = none := by
      by_contra found
      exact unknown (mem_states_iff.mpr found)
    have failed := Workload.entries_of_unknown
      (fun earlier member => mem_states_iff.mp (known earlier member)) missing after
    refine scheduleBy_of_error _ ?_
    rw [Workload.ofStates, failed]

-----------------------------------------------------------------------------------------
-- A ring that is only partly chosen
-----------------------------------------------------------------------------------------

/-- Two states that read one another, a third that reads the first of them, and a free one. -/
def ringProgram : Program where
  model := ⟨["free", "x", "y", "reader"].map fun name =>
    ⟨name, ⟨false, true, false, false⟩, none⟩⟩
  registry :=
    [sumState "free" 0 [], sumState "x" 1 [2], sumState "y" 2 [1], sumState "reader" 3 [1]].foldl
      (fun registry state => (registry.add state).2) .empty

/-- The graph over the ring and the states beside it. -/
def ringGraph : Graph :=
  (build ringProgram .empty none ringProgram.registry.ids).1.toOption.getD .empty

/-- The ring stops its chosen half and the reader behind it, and by the general law a chosen node
then lies on a cycle.
-/
theorem schedule_complete_ring
    : ringGraph.schedule [.ofIndex 3, .ofIndex 0, .ofIndex 1]
        = .error (.cycleDetected ["reader", "x"] ["x"])
      ∧ ∃ node,
          ringGraph.Holds [.ofIndex 3, .ofIndex 0, .ofIndex 1] node
          ∧ ringGraph.Path node node := by
  have built : (build ringProgram .empty none ringProgram.registry.ids).1 = .ok ringGraph := by
    cbv
  have failed
      : ringGraph.schedule [.ofIndex 3, .ofIndex 0, .ofIndex 1]
        = .error (.cycleDetected ["reader", "x"] ["x"]) := by
    cbv
  have known
      : ∀ state ∈ [.ofIndex 3, .ofIndex 0, .ofIndex 1], state ∈ ringGraph.states := by
    decide +kernel
  have succeeds :=
    ((schedule_complete (constructed_of_build built)
      [.ofIndex 3, .ofIndex 0, .ofIndex 1]).1 known).1
  refine ⟨failed, ?_⟩
  by_contra acyclic
  push Not at acyclic
  obtain ⟨groups, scheduled⟩ := succeeds.mpr acyclic
  rw [failed] at scheduled
  cases scheduled

end Graph

end StepPlan
