import StepPlan.Graph

/-! The work to schedule. The states of one node that share a cluster membership form a job,
so a node that holds a cluster member and an unrelated state gives two jobs. A job depends on
the jobs of the nearest chosen nodes, looking past nodes outside the chosen states.
-/

namespace StepPlan

/-- The chosen states of one node with one cluster membership. -/
structure Job where
  node : Nat
  cluster : Option ClusterId
  states : List StateId
  deriving DecidableEq

/-- Jobs, numbered by position, and the jobs that each of them depends on, ascending. -/
structure Workload where
  jobs : List Job
  dependencies : List (List Nat)
  deriving DecidableEq

namespace Workload

/-- Adds a state to the job of its node and cluster, which is appended if it is new. A state
that is listed again is left out.
-/
def enlist (jobs : List Job) (entry : Entry) : List Job :=
  if jobs.any fun job => job.node = entry.node && job.cluster = entry.cluster then
    jobs.map fun job =>
      if job.node = entry.node ∧ job.cluster = entry.cluster ∧ entry.state ∉ job.states then
        { job with states := job.states ++ [entry.state] }
      else job
  else jobs ++ [⟨entry.node, entry.cluster, [entry.state]⟩]

/-- The entries of the chosen states, until one is unknown. -/
def entries (graph : Graph) : List StateId → Except Error (List Entry)
  | [] => .ok []
  | state :: rest =>
      match graph.entry state with
      | .error error => .error error
      | .ok entry =>
          match entries graph rest with
          | .error error => .error error
          | .ok more => .ok (entry :: more)

/-- The dependencies of a node as far as the search for chosen nodes goes on: it stops at a
chosen node.
-/
def onward (graph : Graph) (chosen : List Nat) (node : Nat) : List Nat :=
  if chosen.contains node then [] else graph.edges.next node

/-- The nodes met from a node on the way to the nearest chosen ones, those included. -/
def nearby (graph : Graph) (chosen : List Nat) (node : Nat) : List Nat :=
  Reach.closure graph.nodes.length (onward graph chosen) (graph.edges.next node)

/-- The jobs whose nodes are nearest to a job. -/
def jobDependencies (graph : Graph) (jobs : List Job) (job : Job) : List Nat :=
  let met := nearby graph (jobs.map Job.node) job.node
  (List.range jobs.length).filter fun number =>
    match jobs[number]? with
    | some other => met.contains other.node
    | none => false

/-- The work for the chosen states. -/
def ofStates (graph : Graph) (chosen : List StateId) : Except Error Workload :=
  match entries graph chosen with
  | .error error => .error error
  | .ok found =>
      let jobs := found.foldl enlist []
      .ok ⟨jobs, jobs.map (jobDependencies graph jobs)⟩

/-- The number of jobs. -/
def size (work : Workload) : Nat :=
  work.jobs.length

/-- The jobs that a job depends on. -/
def dependenciesOf (work : Workload) (job : Nat) : List Nat :=
  work.dependencies[job]?.getD []

/-- The cluster of a job. -/
def clusterOf (work : Workload) (job : Nat) : Option ClusterId :=
  work.jobs[job]?.bind Job.cluster

/-- The states of a job. -/
def statesOf (work : Workload) (job : Nat) : List StateId :=
  (work.jobs[job]?.map Job.states).getD []

/-- The clusters that occur, in order of first sight. -/
def clusters (work : Workload) : List ClusterId :=
  (work.jobs.filterMap Job.cluster).eraseDups

end Workload

end StepPlan
