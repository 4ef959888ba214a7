import StepPlan.Reach
import StepPlan.Total

/-! Strongly connected components of finite graphs. Two nodes are in one component when each is
reached from the other. A depth-first search settles a component at the last of its nodes that it
leaves.
-/

namespace StepPlan

/-- A search for the strongly connected components of a graph. It is given the nodes and those that
each node leads to, and it lists the components in some order.
-/
abbrev ComponentSearch := (nodes : List Nat) → (next : Nat → List Nat) → List (List Nat)

namespace ComponentSearch

/-- Nodes that a search has entered, and those it has left, in that order. -/
structure Visit where
  entered : List Nat
  finished : List Nat
  deriving DecidableEq

/-- Searches from the given nodes in order, depth first. Every node is entered once, so the number
of nodes and edges bounds the steps.
-/
def visit (next : Nat → List Nat) : (steps : Nat) → List Nat → Visit → Visit
  | 0, _, seen => seen
  | _ + 1, [], seen => seen
  | steps + 1, node :: rest, seen =>
      if seen.entered.contains node then visit next steps rest seen
      else
        let inner := visit next steps (next node) { seen with entered := node :: seen.entered }
        visit next steps rest { inner with finished := inner.finished ++ [node] }

/-- The nodes in the order in which a depth-first search leaves them. -/
def postorder (nodes : List Nat) (next : Nat → List Nat) : List Nat :=
  let steps := nodes.length + total (fun node => (next node).length) nodes
  (visit next (steps + 1) nodes ⟨[], []⟩).finished

/-- The component of a node: itself and the nodes that it reaches and that reach it. -/
def component (reached : Nat → List Nat) (node : Nat) : List Nat :=
  if (reached node).contains node then
    (reached node).filter fun other => (reached other).contains node
  else [node]

/-- The components of nodes in a list, each at the last of its nodes there. -/
def settle (reached : Nat → List Nat) : List Nat → List (List Nat)
  | [] => []
  | node :: rest =>
      let members := component reached node
      if rest.all fun later => !members.contains later then members :: settle reached rest
      else settle reached rest

/-- Every node with the nodes that it reaches over at least one edge. -/
def reachTable (nodes : List Nat) (next : Nat → List Nat) : List (Nat × List Nat) :=
  nodes.map fun node => (node, Reach.gather next nodes (next node))

/-- The components in the order in which a depth-first search settles them. What each node reaches
is found once and looked up afterwards.
-/
def depthFirst : ComponentSearch := fun nodes next =>
  let table := reachTable nodes next
  settle (fun node => (table.lookup node).getD []) (postorder nodes next)

/-- Whether a component holds a cycle: it has several nodes, or its only node leads to itself. -/
def holdsCycle (next : Nat → List Nat) (component : List Nat) : Bool :=
  decide (1 < component.length) || component.head?.any fun node => (next node).contains node

end ComponentSearch

end StepPlan
