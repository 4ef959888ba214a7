import StepPlan.Binary64.Decimal
import StepPlan.Schedule

/-! Figures about a schedule: its size, the share of states that run inside cluster groups, and
how often a cluster is resumed after another group came in between.
-/

namespace StepPlan

/-- Figures about a schedule. -/
structure ScheduleReport where
  groups : Nat
  states : Nat
  /-- States in groups that have a cluster. -/
  clusteredStates : Nat
  /-- Their share of all states, `0` if there are none. -/
  clusteredShare : Binary64
  /-- How often a cluster resumes after some other group. -/
  contiguityBreaks : Nat
  largestGroup : Nat
  mining : Option MiningReport
  deriving DecidableEq

namespace ScheduleReport

/-- Whether a cluster at a position was last seen before the position just before it. -/
def resumes (lastSeen : List (ClusterId × Nat)) (position : Nat) (cluster : ClusterId) : Bool :=
  match lastSeen.lookup cluster with
  | none => false
  | some last => last + 1 != position

/-- Counts the groups that resume a cluster. The position of the last group of each cluster is
written down, the latest first.
-/
def breaks (lastSeen : List (ClusterId × Nat)) (position : Nat) : List Group → Nat
  | [] => 0
  | group :: rest =>
      match group.cluster with
      | none => breaks lastSeen (position + 1) rest
      | some cluster =>
          (resumes lastSeen position cluster).toNat
            + breaks ((cluster, position) :: lastSeen) (position + 1) rest

/-- The number of states in some groups. -/
def countStates (groups : List Group) : Nat :=
  total (fun group => group.states.length) groups

/-- One number as a share of another, `0` of nothing. -/
def share (part whole : Nat) : Binary64 :=
  if whole = 0 then .zero false
  else .ofFloat ((Binary64.ofNat part).toFloat / (Binary64.ofNat whole).toFloat)

/-- The figures of a schedule. -/
def analyze (groups : List Group) : ScheduleReport :=
  let states := countStates groups
  let clustered := countStates (groups.filter fun group => group.cluster.isSome)
  { groups := groups.length
    states := states
    clusteredStates := clustered
    clusteredShare := share clustered states
    contiguityBreaks := breaks [] 0 groups
    largestGroup := groups.foldl (fun most group => max most group.states.length) 0
    mining := none }

/-- The figures together with those of the search for clusters. -/
def withMining (report : ScheduleReport) (mining : MiningReport) : ScheduleReport :=
  { report with mining := some mining }

/-- A share in percent with one decimal. The product with a hundred is rounded as a double and
its exact value is then rounded to tenths, ties to even.
-/
def percent (share : Binary64) : String :=
  let tenths := (Binary64.ofFloat (share.toFloat * 100)).tenths
  toString (tenths / 10) ++ "." ++ toString (tenths % 10)

/-- The line about the search for clusters. -/
def miningText (mining : MiningReport) : String :=
  "  mining: " ++ toString mining.candidates ++ " candidates, "
    ++ toString mining.discardedSmall ++ " too small, "
    ++ toString mining.droppedConflicts ++ " conflicting, "
    ++ toString mining.selected ++ " selected (cost " ++ toString mining.selectionCost ++ ")\n"

/-- The figures as text. -/
def text (report : ScheduleReport) : String :=
  "SCHEDULE: " ++ toString report.states ++ " states in " ++ toString report.groups
    ++ " groups\n"
    ++ "  clustered: " ++ toString report.clusteredStates ++ " ("
    ++ percent report.clusteredShare ++ "%), breaks: " ++ toString report.contiguityBreaks
    ++ ", largest group: " ++ toString report.largestGroup ++ "\n"
    ++ (report.mining.map miningText).getD ""

end ScheduleReport

end StepPlan
