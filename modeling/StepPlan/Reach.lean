/-! Reachability in finite graphs. Every step of the search takes one discovered node out of
the domain, so cycles and repeated edges need no bound of their own.
-/

namespace StepPlan.Reach

/-- The nodes of the domain found from the pending ones, each once. Pending nodes that are no
longer in the domain have been found before.
-/
def gather (next : Nat → List Nat) (domain pending : List Nat) : List Nat :=
  match _found : pending.dropWhile fun node => !domain.contains node with
  | [] => []
  | node :: rest => node :: gather next (domain.erase node) (next node ++ rest)
termination_by domain.length
decreasing_by
  have member : node ∈ domain := by
    have kept := List.head?_dropWhile_not (fun node => !domain.contains node) pending
    rw [_found] at kept
    simpa using kept
  have positive := List.length_pos_of_mem member
  rw [List.length_erase_of_mem member]
  omega

/-- The nodes below `count` that are reached from the given ones, those included. -/
def closure (count : Nat) (next : Nat → List Nat) (starts : List Nat) : List Nat :=
  gather next (List.range count) starts

end StepPlan.Reach
