import Mathlib.Data.List.Nodup

/-! Lists without repetitions. -/

namespace StepPlan

/-- Erasing repetitions leaves none, by induction on the length. -/
theorem nodup_eraseDups {α : Type} [BEq α] [LawfulBEq α]
    : (items : List α) → items.eraseDups.Nodup
  | [] => List.nodup_nil
  | item :: rest => by
      rw [List.eraseDups_cons, List.nodup_cons, List.mem_eraseDups]
      exact ⟨by simp, nodup_eraseDups _⟩
termination_by items => items.length
decreasing_by exact Nat.lt_succ_of_le (List.length_filter_le _ _)

/-- Erasing repetitions keeps the first of each, in order. Induction on the length. -/
theorem eraseDups_sublist {α : Type} [BEq α]
    : (items : List α) → items.eraseDups.Sublist items
  | [] => .slnil
  | item :: rest => by
      rw [List.eraseDups_cons]
      exact ((eraseDups_sublist _).trans List.filter_sublist).cons_cons item
termination_by items => items.length
decreasing_by exact Nat.lt_succ_of_le (List.length_filter_le _ _)

end StepPlan
