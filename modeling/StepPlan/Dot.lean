import StepPlan.Graph

/-! Dependency graphs in the DOT language: one line per node, labelled with its name, key and
cluster, and one per edge, drawn from the dependency to the node that needs it.
-/

namespace StepPlan.Dot

/-- A character inside a label. -/
def escapeChar (c : Char) : String :=
  if c = '"' then "\\\""
  else if c = '\\' then "\\\\"
  else if c = '\n' then "\\l"
  else String.singleton c

/-- Text inside a label. -/
def escape (s : String) : String :=
  String.join (s.toList.map escapeChar)

/-- The label of a node. -/
def label (graph : Graph) (number : Nat) (node : Node) : String :=
  graph.nodeName number ++ " [" ++ node.key.text ++ "]" ++
    match node.cluster with
    | some cluster => " #" ++ cluster.text
    | none => ""

/-- The line of a node. -/
def nodeLine (graph : Graph) (number : Nat) (node : Node) : String :=
  "    " ++ toString number ++ " [ label = \"" ++ escape (label graph number node) ++ "\" ]\n"

/-- The lines of the edges of a node, the latest first. -/
def edgeLines (graph : Graph) (number : Nat) : List String :=
  (graph.edges.dependencies number).map fun edge =>
    "    " ++ toString edge.1 ++ " -> " ++ toString number ++ " [ label = \""
      ++ escape edge.2.label ++ "\" ]\n"

/-- A graph as DOT text. -/
def render (graph : Graph) : String :=
  let nodes := graph.nodes.mapIdx (nodeLine graph)
  let edges := (List.range graph.nodes.length).flatMap (edgeLines graph)
  "digraph \x7b\n" ++ String.join nodes ++ String.join edges ++ "\x7d\n"

end StepPlan.Dot
