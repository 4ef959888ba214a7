/-! Totals over lists: the sum of a weight of each item. -/

namespace StepPlan

variable {α : Type}

/-- The sum of the weights of all items. -/
def total (weight : α → Nat) : List α → Nat
  | [] => 0
  | item :: rest => weight item + total weight rest

/-- The total over two lists in a row is the sum of both totals, by induction on the first. -/
theorem total_append (weight : α → Nat) (first second : List α)
    : total weight (first ++ second) = total weight first + total weight second := by
  induction first with
  | nil => simp [total]
  | cons item rest ih => simp [total, ih, Nat.add_assoc]

end StepPlan
