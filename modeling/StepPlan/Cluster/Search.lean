import StepPlan.Cluster

/-! Queries that rely on the order of the members. A state is looked up by halving the members among
which it can be. Two clusters are compared in one walk through the members of both, which passes
over the smaller of the two states that it has come to.
-/

namespace StepPlan.Cluster

/-- The place at which the search for a state ends, among so many members from a place on. The
search goes on from the middle on, or up to it if the state there is greater.
-/
def bisect (members : List Member) (state : StateId) (place count : Nat) (inhabited : 0 < count)
    (inside : place + count ≤ members.length)
    : Fin members.length :=
  if several : 1 < count then
    have middle : place + count / 2 < members.length := by omega
    if members[place + count / 2].state ≤ state then
      bisect members state (place + count / 2) (count - count / 2) (by omega) (by omega)
    else bisect members state place (count - count / 2) (by omega) (by omega)
  else ⟨place, by omega⟩
termination_by count

/-- The place of a member with the given state. -/
def place? (cluster : Cluster) (state : StateId) : Option (Fin cluster.members.length) :=
  if inhabited : 0 < cluster.members.length then
    let place := bisect cluster.members state 0 cluster.members.length inhabited (by omega)
    if cluster.members[place].state = state then some place else none
  else none

/-- The member at the place that a search for its state finds. -/
def search? (cluster : Cluster) (state : StateId) : Option Member :=
  (cluster.place? state).map fun place => cluster.members[place]

/-- Whether two lists of members have a state in common, by a walk through both. -/
def meet : List Member → List Member → Bool
  | member :: rest, other :: others =>
      if member.state < other.state then meet rest (other :: others)
      else if other.state < member.state then meet (member :: rest) others
      else true
  | _, _ => false
termination_by members others => members.length + others.length

end StepPlan.Cluster
