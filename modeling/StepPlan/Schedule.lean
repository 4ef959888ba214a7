import StepPlan.Phase
import StepPlan.Schedule.Cycle
import StepPlan.Schedule.Queues

/-! Schedules: the chosen states in groups, each group after all groups it depends on. The
states of a group are independent of one another and share their cluster membership.
-/

namespace StepPlan

/-- The schedule of one phase. -/
structure PhaseSchedule where
  phase : Phase
  groups : List Group
  deriving DecidableEq

/-- The states in the order in which they are computed. -/
def PhaseSchedule.states (schedule : PhaseSchedule) : List StateId :=
  schedule.groups.flatMap Group.states

namespace Graph

/-- Names in ascending order, each once. -/
def sortNames (names : List String) : List String :=
  (names.mergeSort fun first second => (compare first second).isLE).eraseDups

/-- The names of the nodes of jobs. -/
def jobNames (graph : Graph) (work : Workload) (jobs : List Nat) : List String :=
  jobs.filterMap fun job => work.jobs[job]?.map fun found => graph.nodeName found.node

/-- The failure to issue some jobs. -/
def cycleError (graph : Graph) (search : ComponentSearch) (work : Workload) (left : List Nat)
    : Error :=
  .cycleDetected (graph.jobNames work left).eraseDups
    (sortNames (graph.jobNames work (work.cycle search left)))

/-- Orders the chosen states so that each follows those it depends on, with the members of a
cluster next to one another where possible. If that fails, the given search finds the cycle that is
reported.
-/
def scheduleBy (graph : Graph) (search : ComponentSearch) (chosen : List StateId)
    : Except Error (List Group) :=
  match Workload.ofStates graph chosen with
  | .error error => .error error
  | .ok work =>
      let run := work.run
      if run.emitted < work.size then .error (graph.cycleError search work (run.left work))
      else .ok run.groups

/-- The order of the chosen states. A cycle is found by a depth-first search. -/
def schedule (graph : Graph) (chosen : List StateId) : Except Error (List Group) :=
  graph.scheduleBy ComponentSearch.depthFirst chosen

/-- The schedule of one phase. -/
def schedulePhase (graph : Graph) (phase : Phase) (chosen : List StateId)
    : Except Error PhaseSchedule :=
  match graph.schedule chosen with
  | .error error => .error error
  | .ok groups => .ok ⟨phase, groups⟩

end Graph

end StepPlan
