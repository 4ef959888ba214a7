import StepPlan.Graph

/-! Sets of states that are narrowed by questions about dependencies. A filter answers each
question with a new filter, or narrows itself when it is in place. Either way it remembers the
states that the last question left out.
-/

namespace StepPlan

/-- A set of states in ascending order and the complement of the last answer. No complement
and an empty one are the same.
-/
structure Filter where
  states : List StateId
  complement : Option (List StateId)
  inPlace : Bool
  deriving DecidableEq

namespace Filter

/-- States in ascending order, each once. -/
def sorted (states : List StateId) : List StateId :=
  (states.mergeSort fun first second => decide (first ≤ second)).eraseDups

/-- The filter that holds the given states. -/
def ofStates (states : List StateId) : Filter :=
  ⟨sorted states, none, false⟩

/-- The filter that holds all states of a graph. -/
def all (graph : Graph) : Filter :=
  ofStates graph.states

/-- Lets later questions narrow the filter itself. -/
def filter (receiver : Filter) : Filter :=
  { receiver with inPlace := true }

/-- Lets later questions return new filters. -/
def unfilter (receiver : Filter) : Filter :=
  { receiver with inPlace := false }

/-- A set of states to remember, unless it is empty. -/
def toComplement (states : List StateId) : Option (List StateId) :=
  if states.isEmpty then none else some states

/-- Splits states by a question that may fail, keeping their order. -/
def split (keep : StateId → Except Error Bool)
    : List StateId → Except Error (List StateId × List StateId)
  | [] => .ok ([], [])
  | state :: rest =>
      match keep state with
      | .error error => .error error
      | .ok answer =>
          match split keep rest with
          | .error error => .error error
          | .ok (kept, dropped) =>
              .ok (if answer then (state :: kept, dropped) else (kept, state :: dropped))

/-- Asks a question of every state: the answer and the filter afterwards. The filter is assigned to
only once every state has been asked about.
-/
def ask (receiver : Filter) (keep : StateId → Except Error Bool)
    : Except Error Filter × Filter :=
  match split keep receiver.states with
  | .error error => (.error error, receiver)
  | .ok (kept, dropped) =>
      let complement := toComplement dropped
      if receiver.inPlace then
        let narrowed : Filter := { receiver with states := kept, complement := complement }
        (.ok narrowed, narrowed)
      else (.ok ⟨kept, complement, false⟩, { receiver with complement := complement })

/-- Whether a question that may fail holds of some state, asked in order up to the first. -/
def some? (question : StateId → Except Error Bool) : List StateId → Except Error Bool
  | [] => .ok false
  | state :: rest =>
      match question state with
      | .error error => .error error
      | .ok true => .ok true
      | .ok false => some? question rest

/-- Keeps the states that depend on one of the others. -/
def dependsOn (receiver : Filter) (graph : Graph) (others : List StateId)
    : Except Error Filter × Filter :=
  receiver.ask fun state => some? (fun other => graph.dependsOnState state other) others

/-- Keeps the states that one of the others depends on. -/
def dependencyOf (receiver : Filter) (graph : Graph) (others : List StateId)
    : Except Error Filter × Filter :=
  receiver.ask fun state => some? (fun other => graph.dependsOnState other state) others

/-- The remembered complement as a filter, and the filter afterwards. A filter in place is exchanged
with its complement.
-/
def not (receiver : Filter) : Filter × Filter :=
  let complement := receiver.complement.getD []
  if receiver.inPlace then
    let swapped : Filter :=
      { receiver with states := complement, complement := toComplement receiver.states }
    (swapped, swapped)
  else (⟨complement, none, false⟩, receiver)

end Filter

end StepPlan
