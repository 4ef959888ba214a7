import StepPlan.Tagged

/-! The named stages of a simulation step, in the order in which they run. -/

namespace StepPlan

/-- One stage of a simulation step. -/
inductive Phase where
  | prepare
  | init
  | pre
  | preDiff
  | diff
  | post
  | events
  deriving DecidableEq

namespace Phase

instance : Tagged Phase where
  all := [.prepare, .init, .pre, .preDiff, .diff, .post, .events]
  tag
    | .prepare => "Prepare"
    | .init => "Init"
    | .pre => "Pre"
    | .preDiff => "PreDiff"
    | .diff => "Diff"
    | .post => "Post"
    | .events => "Events"

/-- The name of a phase in generated code. -/
def name : Phase → String
  | .prepare => "prepare"
  | .init => "init"
  | .pre => "pre"
  | .preDiff => "prediff"
  | .diff => "diff"
  | .post => "post"
  | .events => "events"

/-- The position of a phase in a step. -/
def number (phase : Phase) : Nat :=
  Tagged.all.idxOf phase

end Phase

end StepPlan
