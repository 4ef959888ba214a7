import StepPlan.Ident
import StepPlan.Tagged

/-! What a state computes and where it writes. A role says how a state contributes, a target
names the quantity, a view selects one storage of it, and a key, the pair of target and view,
identifies that storage. States with the same key share a node of the dependency graph.
-/

namespace StepPlan

/-- How a state contributes to a step. -/
inductive Role where
  | integrated
  | direct
  | derivative
  | initialization
  | delayed
  | eventNode
  | eventSet
  | eventAction
  | constraint
  | auxiliary
  | rand
  deriving DecidableEq

instance : Tagged Role where
  all := [.integrated, .direct, .derivative, .initialization, .delayed, .eventNode, .eventSet,
    .eventAction, .constraint, .auxiliary, .rand]
  tag
    | .integrated => "Integrated"
    | .direct => "Direct"
    | .derivative => "Derivative"
    | .initialization => "Initialization"
    | .delayed => "Delayed"
    | .eventNode => "EventNode"
    | .eventSet => "EventSet"
    | .eventAction => "EventAction"
    | .constraint => "Constraint"
    | .auxiliary => "Auxiliary"
    | .rand => "Rand"

/-- The storages that one quantity may have. -/
inductive View where
  | value
  | derivative
  | constraint
  | initial
  | event
  deriving DecidableEq, Ord

instance : Tagged View where
  all := [.value, .derivative, .constraint, .initial, .event]
  tag
    | .value => "Value"
    | .derivative => "Derivative"
    | .constraint => "Constraint"
    | .initial => "Initial"
    | .event => "Event"

namespace Role

/-- Derivatives and constraints may read the quantity they belong to. -/
def allowsSelfReference : Role → Bool
  | .derivative | .constraint => true
  | _ => false

/-- The storage that a state of a role writes. -/
def view : Role → View
  | .derivative => .derivative
  | .constraint => .constraint
  | .initialization => .initial
  | .eventSet | .eventAction => .event
  | _ => .value

end Role

/-- The quantity that a state writes. An event condition node stores several quantities, told
apart by their slots.
-/
inductive Target where
  | var (id : VarId)
  | operator (id : OperatorId)
  | draw (id : DrawId)
  | eventNode (node slot : UInt32)
  | synthetic (number : UInt32)
  deriving DecidableEq

namespace Target

/-- The kinds of target in their order, as numbers. -/
def rank : Target → Nat
  | .var _ => 0
  | .operator _ => 1
  | .draw _ => 2
  | .eventNode _ _ => 3
  | .synthetic _ => 4

/-- The numbers inside a target, in order. -/
def numbers : Target → Nat × Nat
  | .var id => (id.index, 0)
  | .operator id => (id.index, 0)
  | .draw id => (id.index, 0)
  | .eventNode node slot => (node.toNat, slot.toNat)
  | .synthetic number => (number.toNat, 0)

/-- Targets are ordered by kind and then by their numbers. -/
instance : Ord Target where
  compare first second :=
    (compare first.rank second.rank).then
      ((compare first.numbers.1 second.numbers.1).then
        (compare first.numbers.2 second.numbers.2))

/-- The written form of a target. -/
def text : Target → String
  | .var id => "v" ++ id.text
  | .operator id => "op" ++ id.text
  | .draw id => "rand" ++ id.text
  | .eventNode node slot => "event" ++ toString node.toNat ++ "@" ++ toString slot.toNat
  | .synthetic number => "syn" ++ toString number.toNat

end Target

/-- The identity of one storage: a quantity and which of its storages is meant. -/
structure Key where
  target : Target
  view : View
  deriving DecidableEq

namespace Key

/-- The value storage of a target. -/
def value (target : Target) : Key :=
  ⟨target, .value⟩

/-- The initial value storage of a target. -/
def initial (target : Target) : Key :=
  ⟨target, .initial⟩

/-- Keys are ordered by target and then by view. -/
instance : Ord Key where
  compare first second :=
    (compare first.target second.target).then (compare first.view second.view)

/-- The written form of a key: its target, marked with the view unless that is the value. -/
def text (key : Key) : String :=
  key.target.text ++
    match key.view with
    | .value => ""
    | .derivative => "'"
    | .constraint => "#constraint"
    | .initial => "#init"
    | .event => "#event"

/-- Keys in ascending order. -/
def sort (keys : List Key) : List Key :=
  keys.mergeSort fun first second => (compare first second).isLE

end Key

end StepPlan
