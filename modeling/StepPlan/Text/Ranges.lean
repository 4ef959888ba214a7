/-! Sets of code points as lists of ranges. -/

namespace StepPlan.Text

/-- Whether a number lies in one of some closed ranges. The ranges are ascending, so the search
ends at the first one that starts above the number.
-/
def inRanges (n : Nat) : List (Nat × Nat) → Bool
  | [] => false
  | (first, last) :: rest =>
      if n < first then false else if n ≤ last then true else inRanges n rest

end StepPlan.Text
