import StepPlan.Components
import StepPlan.Schedule.Workload

/-! Cycles among jobs that cannot be issued. Of the components that a search finds among them, the
first that holds a cycle is the one reported.
-/

namespace StepPlan.Workload

/-- The dependencies of a job among the jobs that are left, in descending order. -/
def leftDependencies (work : Workload) (left : List Nat) (job : Nat) : List Nat :=
  ((work.dependenciesOf job).filter fun dependency => left.contains dependency).reverse

/-- The first component with a cycle that a search finds among the jobs left. -/
def cycle (work : Workload) (search : ComponentSearch) (left : List Nat) : List Nat :=
  let next := work.leftDependencies left
  ((search left next).find? (ComponentSearch.holdsCycle next)).getD []

end StepPlan.Workload
