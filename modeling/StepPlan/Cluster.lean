import StepPlan.Signature

/-! Clusters: formulas of equal signature turned into one routine. Positions at which all
members have the same operand are part of the routine. The others become parameters, and
parameters whose operands agree in every member share one argument slot. The routine's body is
the first member's formula with its parameters replaced by arguments.
-/

namespace StepPlan

/-- A state and the formula with which it belongs to a cluster. -/
structure Member where
  state : StateId
  formula : Formula
  deriving DecidableEq

/-- A closed cluster. -/
structure Cluster where
  id : ClusterId
  signature : Signature
  /-- The body of the routine. -/
  prototype : Formula
  /-- The positions that vary between members, ascending. -/
  parameters : List Nat
  /-- The parameters fed by each argument slot. -/
  arguments : List (List Nat)
  /-- The members, ordered by state. -/
  members : List Member
  deriving DecidableEq

namespace Cluster

/-- What the members have at a position. -/
def column (members : List Member) (position : Nat) : List (Option Instruction) :=
  members.map fun member => member.formula[position]?

/-- Whether the entries of a column are not all equal to the first. -/
def varies : List (Option Instruction) → Bool
  | [] => false
  | first :: rest => rest.any fun other => other != first

/-- Whether a slot feeds parameters whose column is the one at the given position. The columns
of one slot are equal, so its first position stands for all of them.
-/
def feeds (members : List Member) (position : Nat) (slot : List Nat) : Bool :=
  match slot with
  | [] => false
  | first :: _ => column members first == column members position

/-- Gives a parameter to the first slot with the same column, or to a new slot. -/
def assign (members : List Member) (slots : List (List Nat)) (position : Nat)
    : List (List Nat) :=
  match slots.findIdx? (feeds members position) with
  | some slot => slots.modify slot fun positions => positions ++ [position]
  | none => slots ++ [[position]]

/-- A formula with each parameter replaced by the argument whose slot feeds it. -/
def withArguments (slots : List (List Nat)) (formula : Formula) : Formula :=
  formula.mapIdx fun position instruction =>
    match slots.findIdx? fun slot => slot.contains position with
    | some slot => .argument (UInt16.ofNat slot)
    | none => instruction

/-- Members in ascending order of their states, keeping the order of repeated ones. -/
def sortMembers (members : List Member) : List Member :=
  members.mergeSort fun first second => decide (first.state ≤ second.state)

/-- Closes a collection of formulas that share a signature. -/
def close (id : ClusterId) (signature : Signature) (collected : List Member) : Cluster :=
  let members := sortMembers collected
  let parameters := signature.placeholders.filter fun position =>
    varies (column members position)
  let arguments := parameters.foldl (assign members) []
  let first := (members.head?.map Member.formula).getD []
  { id, signature, parameters, arguments, members, prototype := withArguments arguments first }

/-- The number of members. -/
def size (cluster : Cluster) : Nat :=
  cluster.members.length

/-- The number of argument slots. -/
def arity (cluster : Cluster) : Nat :=
  cluster.arguments.length

/-- The states of the members, ascending. -/
def states (cluster : Cluster) : List StateId :=
  cluster.members.map Member.state

/-- Whether a state is a member. -/
def contains (cluster : Cluster) (state : StateId) : Bool :=
  cluster.states.contains state

/-- Whether two clusters have a state in common. -/
def sharesMember (cluster other : Cluster) : Bool :=
  cluster.states.any other.contains

/-- The estimated size of the routine and of the table of its arguments. -/
def cost (cluster : Cluster) : Nat :=
  2 * cluster.size + cluster.prototype.length + cluster.size * cluster.arity

/-- The number of operand positions on which all members agree. -/
def baked (cluster : Cluster) : Nat :=
  cluster.signature.placeholders.length - cluster.parameters.length

/-- What a member has at the first position that a slot feeds. Every slot feeds some position of
every member, so the default is never used.
-/
def operand (member : Member) (slot : List Nat) : Instruction :=
  (slot.head?.bind fun position => member.formula[position]?).getD (.argument 0)

/-- The arguments of one member, one per slot. -/
def row (cluster : Cluster) (member : Member) : List Instruction :=
  cluster.arguments.map (operand member)

/-- The arguments of all members. -/
def table (cluster : Cluster) : List (List Instruction) :=
  cluster.members.map cluster.row

/-- The member for a state, the last one if the state is repeated. -/
def member? (cluster : Cluster) (state : StateId) : Option Member :=
  (cluster.members.filter fun member => member.state = state).getLast?

/-- What replaces the formula of a state: its arguments and a call of the routine. -/
def callSite? (cluster : Cluster) (state : StateId) : Option Formula :=
  (cluster.member? state).map fun member =>
    cluster.row member ++ [.routine cluster.id (UInt16.ofNat cluster.arity)]

end Cluster

end StepPlan
