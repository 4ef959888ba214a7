import StepPlan.Proofs.Cluster.Selection
import StepPlan.Proofs.Components
import StepPlan.Proofs.Distinct
import StepPlan.Proofs.Schedule.Completeness

/-! The cycle that a failed schedule reports is a strongly connected component, whichever search
finds the components. Some job that cannot be issued lies on a cycle, so a component with a cycle is
found. Jobs that reach one another through any jobs do so through jobs that cannot be issued, and
the component is therefore full. Its nodes are a component of the graph among the nodes that hold
chosen states.
-/

namespace StepPlan

open Relation

namespace Workload

variable {work : Workload}

theorem mem_leftDependencies_iff {left : List Nat} {job other : Nat}
    : other ∈ work.leftDependencies left job ↔ work.DependsOn job other ∧ other ∈ left := by
  rw [leftDependencies, List.mem_reverse, List.mem_filter, List.contains_iff_mem, DependsOn]

-----------------------------------------------------------------------------------------
-- Components of jobs
-----------------------------------------------------------------------------------------

/-- A job that leads to one left behind is left behind. -/
theorem mem_left_of_leads (bounded : work.Bounded) {job other : Nat}
    (leads : TransGen work.DependsOn job other) (behind : other ∈ work.left)
    : job ∈ work.left := by
  obtain ⟨next, first, _⟩ := TransGen.head'_iff.mp leads
  obtain ⟨_, cyclic, rest, cycle⟩ := (mem_left_iff_leads_to_cycle bounded).mp behind
  refine (mem_left_iff_leads_to_cycle bounded).mpr ⟨(bounded job next first).1, cyclic, ?_, cycle⟩
  exact leads.to_reflTransGen.trans rest

/-- What a job leads to among the jobs left behind it leads to over any jobs. The jobs on the way
are left behind themselves.
-/
theorem leads_left_iff (bounded : work.Bounded) {job other : Nat}
    : TransGen (ComponentSearch.Leads (work.leftDependencies work.left)) job other
      ↔ TransGen work.DependsOn job other ∧ other ∈ work.left := by
  constructor
  · intro path
    obtain ⟨_, _, last⟩ := TransGen.tail'_iff.mp path
    refine ⟨TransGen.mono (fun _ _ step => ?_) _ _ path, (mem_leftDependencies_iff.mp last).2⟩
    exact (mem_leftDependencies_iff.mp step).1
  · intro found
    obtain ⟨leads, behind⟩ := found
    induction leads using TransGen.head_induction_on with
    | single step => exact .single (mem_leftDependencies_iff.mpr ⟨step, behind⟩)
    | head step rest ih =>
        exact ih.head (mem_leftDependencies_iff.mpr ⟨step, mem_left_of_leads bounded rest behind⟩)

/-- If jobs are left behind, some of them lie on a cycle. -/
theorem exists_cyclic_left (bounded : work.Bounded) (nonempty : work.left ≠ [])
    : ∃ job ∈ work.left, TransGen work.DependsOn job job := by
  obtain ⟨first, behind⟩ := List.exists_mem_of_ne_nil _ nonempty
  obtain ⟨_, cyclic, _, cycle⟩ := (mem_left_iff_leads_to_cycle bounded).mp behind
  obtain ⟨next, step, _⟩ := TransGen.head'_iff.mp cycle
  refine ⟨cyclic, ?_, cycle⟩
  exact (mem_left_iff_leads_to_cycle bounded).mpr
    ⟨(bounded cyclic next step).1, cyclic, .refl, cycle⟩

/-- Whichever search finds the components, if jobs are left behind, the cycle that is found is the
component of a job on a cycle.
-/
theorem exists_mem_cycle_iff {search : ComponentSearch} (exact : search.Exact)
    (bounded : work.Bounded) (nonempty : work.left ≠ [])
    : ∃ job ∈ work.left,
        TransGen work.DependsOn job job
        ∧ ∀ other,
            other ∈ work.cycle search work.left
            ↔ TransGen work.DependsOn job other ∧ TransGen work.DependsOn other job := by
  have components := exact work.left (work.leftDependencies work.left)
    (List.nodup_range.filter _) fun _ _ _ depends => (mem_leftDependencies_iff.mp depends).2
  obtain ⟨cyclic, cyclicBehind, cycle⟩ := exists_cyclic_left bounded nonempty
  -- The component of that job passes the test, so one is found.
  obtain ⟨held, heldMember, inside⟩ :=
    List.mem_flatten.mp ((components.mem_flatten_iff cyclic).mpr cyclicBehind)
  have holds := (components.holdsCycle_iff heldMember inside).mpr
    ((leads_left_iff bounded).mpr ⟨cycle, cyclicBehind⟩)
  obtain ⟨component, found⟩ := Option.isSome_iff_exists.mp
    (List.find?_isSome.mpr ⟨held, heldMember, holds⟩)
  have member := List.mem_of_find?_eq_some found
  obtain ⟨job, jobInside⟩ := List.exists_mem_of_ne_nil _ (components.inhabited component member)
  have around := (components.holdsCycle_iff member jobInside).mp (List.find?_some found)
  obtain ⟨jobAround, jobBehind⟩ := (leads_left_iff bounded).mp around
  refine ⟨job, jobBehind, jobAround, ?_⟩
  intro other
  rw [Workload.cycle, found, Option.getD_some, components.mem_iff_of_cycle member jobInside around,
    leads_left_iff bounded, leads_left_iff bounded]
  constructor
  · exact fun together => ⟨together.1.1, together.2.1⟩
  · exact fun together =>
      ⟨⟨together.1, mem_left_of_leads bounded together.2 jobBehind⟩, together.2, jobBehind⟩

/-- The nodes of some jobs. -/
def nodes (work : Workload) (jobs : List Nat) : Set Nat :=
  {node | ∃ number ∈ jobs, ∃ job, work.jobs[number]? = some job ∧ job.node = node}

/-- Work fails to be made only for an unknown state, by induction on the chosen states. -/
theorem exists_unknownState {graph : Graph} {chosen : List StateId} {error : Error}
    (failed : ofStates graph chosen = .error error)
    : ∃ state, error = .unknownState state := by
  have looked : entries graph chosen = .error error := by
    unfold ofStates at failed
    split at failed
    · rename_i found missing
      cases failed
      exact missing
    · nomatch failed
  clear failed
  induction chosen with
  | nil => nomatch looked
  | cons state rest ih =>
      rw [entries, Graph.entry] at looked
      cases here : graph.entry? state with
      | none =>
          simp only [here, Except.error.injEq] at looked
          exact ⟨state, looked.symm⟩
      | some entry =>
          cases later : entries graph rest with
          | error found =>
              simp only [here, later, Except.error.injEq] at looked
              exact ih (later.trans (congrArg _ looked))
          | ok more => simp [here, later] at looked

end Workload

namespace Graph

/-- Sorted names ascend strictly, because each is kept once. -/
theorem ascending_sortNames (names : List String) : (sortNames names).Pairwise (· < ·) := by
  have sorted := (Mining.pairwise_mergeSort_isLE compare names).sublist (eraseDups_sublist _)
  have distinct := nodup_eraseDups (names.mergeSort fun first second => (compare first second).isLE)
  refine (sorted.and distinct).imp ?_
  intro first second ordered
  apply compare_lt_iff_lt.mp
  apply (Ordering.isLE_iff_eq_lt_or_eq_eq.mp ordered.1).resolve_right
  exact mt Std.compare_eq_iff_eq.mp ordered.2

theorem mem_sortNames {names : List String} {name : String}
    : name ∈ sortNames names ↔ name ∈ names := by
  rw [sortNames, List.mem_eraseDups, List.mem_mergeSort]

/-- A cycle is reported only if jobs are left, and with their names. -/
theorem scheduleBy_eq_cycleDetected {graph : Graph} {search : ComponentSearch}
    {chosen : List StateId} {remaining cycle : List String}
    (failed : graph.scheduleBy search chosen = .error (.cycleDetected remaining cycle))
    : ∃ work,
        Workload.ofStates graph chosen = .ok work
        ∧ work.left ≠ []
        ∧ remaining = (graph.jobNames work work.left).eraseDups
        ∧ cycle = sortNames (graph.jobNames work (work.cycle search work.left)) := by
  cases made : Workload.ofStates graph chosen with
  | error error =>
      obtain ⟨_, rfl⟩ := Workload.exists_unknownState made
      cases (scheduleBy_of_error search made).symm.trans failed
  | ok work =>
      rcases scheduleBy_of_made search made with ⟨_, ok⟩ | ⟨behind, error⟩
      · cases ok.symm.trans failed
      · cases error.symm.trans failed
        exact ⟨work, rfl, behind, rfl, rfl⟩

/-- (graph.Component chosen component) means that the nodes are a strongly connected component among
those that hold chosen states, with a path from every node to itself.
-/
structure Component (graph : Graph) (chosen : List StateId) (component : Set Nat) : Prop where
  inhabited : component.Nonempty
  holds : ∀ node ∈ component, graph.Holds chosen node
  connected : ∀ node ∈ component, ∀ other ∈ component, graph.Path node other
  full
    : ∀ node ∈ component,
        ∀ other,
          graph.Holds chosen other
          → graph.Path node other
          → graph.Path other node
          → other ∈ component

/-- The nodes of a component of jobs are a component of the graph. -/
theorem component_of_jobs {graph : Graph} {chosen : List StateId} {work : Workload}
    (represents : work.Represents graph chosen) {jobs : List Nat} {job : Nat}
    (around : TransGen work.DependsOn job job)
    (mem_iff : ∀ other, other ∈ jobs
      ↔ TransGen work.DependsOn job other ∧ TransGen work.DependsOn other job)
    : graph.Component chosen (work.nodes jobs) := by
  have known : ∀ number ∈ jobs, ∃ found, work.jobs[number]? = some found := by
    intro number member
    obtain ⟨next, step, _⟩ := TransGen.head'_iff.mp ((mem_iff number).mp member).2
    exact ⟨_, List.getElem?_eq_getElem (represents.bounded number next step).1⟩
  refine ⟨?_, ?_, ?_, ?_⟩
  · obtain ⟨found, here⟩ := known job ((mem_iff job).mpr ⟨around, around⟩)
    exact ⟨found.node, job, (mem_iff job).mpr ⟨around, around⟩, found, here, rfl⟩
  · intro node member
    obtain ⟨number, _, found, here, same⟩ := member
    exact represents.holds_iff.mpr ⟨number, found, here, same⟩
  · intro node member other otherMember
    obtain ⟨number, listed, found, here, rfl⟩ := member
    obtain ⟨second, otherListed, otherFound, there, rfl⟩ := otherMember
    have forth := ((mem_iff number).mp listed).2.trans ((mem_iff second).mp otherListed).1
    exact (represents.leads_iff number second found otherFound here there).mp forth
  · intro node member other holds forth back
    obtain ⟨number, listed, found, here, rfl⟩ := member
    obtain ⟨second, otherFound, there, rfl⟩ := represents.holds_iff.mp holds
    obtain ⟨reached, reaches⟩ := (mem_iff number).mp listed
    have onward := (represents.leads_iff number second found otherFound here there).mpr forth
    have backward := (represents.leads_iff second number otherFound found there here).mpr back
    refine ⟨second, (mem_iff second).mpr ⟨reached.trans onward, backward.trans reaches⟩, ?_⟩
    exact ⟨otherFound, there, rfl⟩

theorem mem_jobNames_iff {graph : Graph} {work : Workload} {jobs : List Nat} {name : String}
    : name ∈ graph.jobNames work jobs
      ↔ ∃ node ∈ work.nodes jobs, graph.nodeName node = name := by
  simp only [jobNames, List.mem_filterMap, Option.map_eq_some_iff]
  constructor
  · intro named
    obtain ⟨number, member, found, here, same⟩ := named
    exact ⟨found.node, ⟨number, member, found, here, rfl⟩, same⟩
  · intro named
    obtain ⟨_, ⟨number, member, found, here, rfl⟩, same⟩ := named
    exact ⟨number, member, found, here, same⟩

/-- Whichever search finds the components, the cycle of a failed schedule names the nodes of a
component, in order, and all of them remain.
-/
theorem scheduleBy_reports_component {graph : Graph} (constructed : graph.Constructed)
    {search : ComponentSearch} (exact : search.Exact) {chosen : List StateId}
    {remaining cycle : List String}
    (failed : graph.scheduleBy search chosen = .error (.cycleDetected remaining cycle))
    : ∃ component,
        graph.Component chosen component
        ∧ cycle.Pairwise (· < ·)
        ∧ (∀ name, name ∈ cycle ↔ ∃ node ∈ component, graph.nodeName node = name)
        ∧ ∀ name ∈ cycle, name ∈ remaining := by
  obtain ⟨work, made, nonempty, rfl, rfl⟩ := scheduleBy_eq_cycleDetected failed
  have represents := Workload.represents_ofStates constructed.edgesInside made
  obtain ⟨job, behind, around, mem_iff⟩ :=
    Workload.exists_mem_cycle_iff exact represents.bounded nonempty
  refine ⟨_, component_of_jobs represents around mem_iff, ascending_sortNames _, ?_, ?_⟩
  · intro name
    rw [mem_sortNames, mem_jobNames_iff]
  · intro name member
    rw [mem_sortNames] at member
    obtain ⟨number, listed, named⟩ := List.mem_filterMap.mp member
    rw [List.mem_eraseDups]
    refine List.mem_filterMap.mpr ⟨number, ?_, named⟩
    exact Workload.mem_left_of_leads represents.bounded ((mem_iff number).mp listed).2 behind

/-- The cycle of a failed schedule names the nodes of a component, in order, and all of them remain.
-/
theorem schedule_reports_component {graph : Graph} (constructed : graph.Constructed)
    {chosen : List StateId} {remaining cycle : List String}
    (failed : graph.schedule chosen = .error (.cycleDetected remaining cycle))
    : ∃ component,
        graph.Component chosen component
        ∧ cycle.Pairwise (· < ·)
        ∧ (∀ name, name ∈ cycle ↔ ∃ node ∈ component, graph.nodeName node = name)
        ∧ ∀ name ∈ cycle, name ∈ remaining :=
  scheduleBy_reports_component constructed ComponentSearch.exact_depthFirst failed

/-- Three states in a ring and one that reads the first of them. -/
def knotProgram : Program where
  model := ⟨["reader", "x", "y", "z"].map fun name =>
    ⟨name, ⟨false, true, false, false⟩, none⟩⟩
  registry :=
    [sumState "reader" 0 [1], sumState "x" 1 [2], sumState "y" 2 [3], sumState "z" 3 [1]].foldl
      (fun registry state => (registry.add state).2) .empty

/-- The graph over the ring and its reader. -/
def knotGraph : Graph :=
  (build knotProgram .empty none knotProgram.registry.ids).1.toOption.getD .empty

/-- Without its last state the ring still closes, and the reader is no part of it. -/
theorem schedule_reports_component_knot
    : knotGraph.schedule [.ofIndex 0, .ofIndex 2, .ofIndex 1]
        = .error (.cycleDetected ["reader", "y", "x"] ["x", "y"])
      ∧ ∃ component,
          knotGraph.Component [.ofIndex 0, .ofIndex 2, .ofIndex 1] component
          ∧ ∀ name,
              name ∈ ["x", "y"] ↔ ∃ node ∈ component, knotGraph.nodeName node = name := by
  have built : (build knotProgram .empty none knotProgram.registry.ids).1 = .ok knotGraph := by
    cbv
  have failed : knotGraph.schedule [.ofIndex 0, .ofIndex 2, .ofIndex 1]
      = .error (.cycleDetected ["reader", "y", "x"] ["x", "y"]) := by
    cbv
  obtain ⟨component, strong, _, names, _⟩ :=
    schedule_reports_component (constructed_of_build built) failed
  exact ⟨failed, component, strong, names⟩

end Graph

end StepPlan
