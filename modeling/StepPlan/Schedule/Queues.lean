import StepPlan.Schedule.Workload

/-! The run that issues jobs. Each job counts the dependencies that it waits for, and a job that
waits for nothing stands in the queue of its rank. The jobs without a cluster have rank 0, and the
clusters are ranked by first sight. The next job is the first in the queue of the current cluster;
failing that, of rank 0; failing that, of the first cluster that can run to its end without waiting
for others; failing that, of the first cluster with a queue.
-/

namespace StepPlan

/-- States that may be computed in any order, all of one cluster or all of none. -/
structure Group where
  cluster : Option ClusterId
  states : List StateId
  deriving DecidableEq

namespace Workload

/-- The rank of a cluster membership. -/
def rank (work : Workload) : Option ClusterId → Nat
  | none => 0
  | some cluster => work.clusters.idxOf cluster + 1

/-- The rank of a job. -/
def rankOf (work : Workload) (job : Nat) : Nat :=
  work.rank (work.clusterOf job)

/-- The jobs that depend on a job, ascending. -/
def usersOf (work : Workload) (job : Nat) : List Nat :=
  (List.range work.size).filter fun user => (work.dependenciesOf user).contains job

end Workload

/-- A run at some moment: how many dependencies each job waits for, the queue of each rank, the
groups so far, the group of each job issued, the rank of the last of them, and their number.
-/
structure Queues where
  pending : List Nat
  ready : List (List Nat)
  groups : List Group
  groupOf : List (Option Nat)
  current : Option Nat
  emitted : Nat
  deriving DecidableEq

namespace Queues

/-- Appends a job to the queue of its rank. -/
def enqueue (work : Workload) (ready : List (List Nat)) (job : Nat) : List (List Nat) :=
  ready.modify (work.rankOf job) fun queue => queue ++ [job]

/-- Nothing is issued, and the jobs that depend on nothing stand in their queues. -/
def start (work : Workload) : Queues where
  pending := (List.range work.size).map fun job => (work.dependenciesOf job).length
  ready :=
    ((List.range work.size).filter fun job => (work.dependenciesOf job).length == 0).foldl
      (enqueue work) (List.replicate (work.clusters.length + 1) [])
  groups := []
  groupOf := List.replicate work.size none
  current := none
  emitted := 0

/-- Whether a rank has a job in its queue. -/
def hasReady (queues : Queues) (rank : Nat) : Bool :=
  !(queues.ready[rank]?.getD []).isEmpty

/-- Whether a job is not issued yet. -/
def isLeft (queues : Queues) (job : Nat) : Bool :=
  queues.groupOf[job]? == some none

/-- Whether the jobs of a rank that are left wait only for one another, so that the cluster can run
to its end once it is started.
-/
def selfContained (work : Workload) (queues : Queues) (rank : Nat) : Bool :=
  let left := (List.range work.size).filter fun job => work.rankOf job == rank && queues.isLeft job
  let awaited := fun job => (work.dependenciesOf job).filter queues.isLeft
  (Reach.closure work.size awaited left).all fun job => work.rankOf job == rank

/-- The rank from which the next job is taken. -/
def pickRank? (work : Workload) (queues : Queues) : Option Nat :=
  match queues.current.filter fun rank => rank != 0 && queues.hasReady rank with
  | some rank => some rank
  | none =>
      if queues.hasReady 0 then some 0
      else
        let waiting := (List.range queues.ready.length).filter queues.hasReady
        (waiting.find? (queues.selfContained work)) <|> waiting.head?

/-- Takes the first job out of the queue of a rank. -/
def take? (queues : Queues) (rank : Nat) : Option (Nat × Queues) :=
  match queues.ready[rank]? with
  | some (job :: rest) => some (job, { queues with ready := queues.ready.set rank rest })
  | _ => none

/-- Whether a job of a rank joins the last group: the job issued before it has the same rank, and
the group holds none of its dependencies.
-/
def joins (work : Workload) (queues : Queues) (rank job : Nat) : Bool :=
  match queues.groups.length with
  | 0 => false
  | last + 1 =>
      queues.current == some rank
        && !(work.dependenciesOf job).any fun dependency =>
          queues.groupOf[dependency]? == some (some last)

/-- Adds the states of a job to the last group, or to a new one. -/
def place (work : Workload) (queues : Queues) (rank job : Nat) : Queues :=
  let groups :=
    if queues.joins work rank job then queues.groups
    else queues.groups ++ [⟨work.clusterOf job, []⟩]
  let last := groups.length - 1
  { queues with
    groups :=
      groups.modify last fun group => { group with states := group.states ++ work.statesOf job }
    groupOf := queues.groupOf.set job (some last)
    current := some rank
    emitted := queues.emitted + 1 }

/-- A job waits for one dependency less, and is queued if that was the last. -/
def release (work : Workload) (queues : Queues) (user : Nat) : Queues :=
  let pending := queues.pending.modify user fun count => count - 1
  { queues with
    pending
    ready := if pending[user]? == some 0 then enqueue work queues.ready user else queues.ready }

/-- Issues a job of a rank, which all jobs that depend on it get to know. -/
def issue (work : Workload) (queues : Queues) (rank job : Nat) : Queues :=
  (work.usersOf job).foldl (release work) (queues.place work rank job)

/-- Issues the next job, if there is one. -/
def step? (work : Workload) (queues : Queues) : Option Queues := do
  let rank ← queues.pickRank? work
  let (job, rest) ← queues.take? rank
  return rest.issue work rank job

/-- Issues jobs while there is a next one, at most the given number. -/
def drain (work : Workload) : Nat → Queues → Queues
  | 0, queues => queues
  | steps + 1, queues =>
      match queues.step? work with
      | none => queues
      | some next => drain work steps next

/-- The jobs that are not issued. -/
def left (work : Workload) (queues : Queues) : List Nat :=
  (List.range work.size).filter queues.isLeft

end Queues

/-- The finished run. Jobs on or behind a cycle are not issued. -/
def Workload.run (work : Workload) : Queues :=
  Queues.drain work work.size (.start work)

end StepPlan
