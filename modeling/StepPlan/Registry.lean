import StepPlan.Error

/-! The registry of states. States are kept in the order of registration, and three lookups
are kept beside them: the names in use, the first state of each key, and the variables that
some state writes. A registry that was read back from its columns starts with empty lookups
until they are rebuilt.
-/

namespace StepPlan

/-- One computed quantity. -/
structure State where
  target : Target
  role : Role
  formula : Formula
  name : String
  deriving DecidableEq

/-- The storage that a state writes. -/
def State.key (state : State) : Key :=
  ⟨state.target, state.role.view⟩

/-- The variable that a state writes, if it writes one. -/
def State.var? (state : State) : Option VarId :=
  match state.target with
  | .var id => some id
  | _ => none

/-- What the registry remembers about its states so as not to search them. -/
structure Lookups where
  /-- The names in use. -/
  names : List String
  /-- Each key with the first state registered under it. -/
  governing : List (Key × StateId)
  /-- The variables that some state writes in any view. -/
  written : List VarId
  deriving DecidableEq

namespace Lookups

/-- Lookups that know nothing. -/
def empty : Lookups :=
  ⟨[], [], []⟩

/-- A name with a counter behind it. -/
def numbered (name : String) (counter : Nat) : String :=
  name ++ "_" ++ toString counter

/-- The name that a state gets: the requested one if it is free, and otherwise the first free
one among those with a counter. One more candidate than there are names in use is enough.
-/
def freeName (lookups : Lookups) (name : String) : String :=
  if name ∈ lookups.names then
    (((List.range' 1 (lookups.names.length + 1)).map (numbered name)).find? fun candidate =>
      decide (candidate ∉ lookups.names)).getD name
  else name

/-- The first state registered under a key. -/
def governing? (lookups : Lookups) (key : Key) : Option StateId :=
  lookups.governing.lookup key

/-- Lets a state govern a key, unless another does already. -/
def govern (lookups : Lookups) (key : Key) (id : StateId) : List (Key × StateId) :=
  match lookups.governing? key with
  | some _ => lookups.governing
  | none => lookups.governing ++ [(key, id)]

/-- The variables written after a state with the given target is added. -/
def write (lookups : Lookups) : Target → List VarId
  | .var id => lookups.written.insert id
  | _ => lookups.written

/-- Takes in the key and the target of a state. -/
def index (lookups : Lookups) (id : StateId) (state : State) : Lookups :=
  { lookups with
    governing := lookups.govern state.key id
    written := lookups.write state.target }

/-- Takes in a state under its final name. -/
def record (lookups : Lookups) (id : StateId) (state : State) : Lookups :=
  { lookups.index id state with names := lookups.names.insert state.name }

/-- Forgets the keys and the variables written. -/
def clear (lookups : Lookups) : Lookups :=
  { lookups with governing := [], written := [] }

/-- Takes in the keys and the targets of states in order. -/
def indexAll (lookups : Lookups) (states : List State) : Lookups :=
  states.zipIdx.foldl (fun lookups row => lookups.index (.ofIndex row.2) row.1) lookups

end Lookups

/-- The registered states, each named by its position, and the lookups. -/
structure Registry where
  states : List State
  lookups : Lookups
  deriving DecidableEq

namespace Registry

/-- The registry without states. -/
def empty : Registry :=
  ⟨[], .empty⟩

/-- The state with the given name, if it is registered. -/
def get? (registry : Registry) (id : StateId) : Option State :=
  registry.states[id.index]?

/-- The state with the given name. -/
def get (registry : Registry) (id : StateId) : Except Error State :=
  match registry.get? id with
  | some found => .ok found
  | none => .error (.unknownState id)

/-- The names of all states, in order of registration. -/
def ids (registry : Registry) : List StateId :=
  (List.range registry.states.length).map .ofIndex

/-- Registers a state under its requested name, or under a numbered one if that is taken. -/
def add (registry : Registry) (requested : State) : StateId × Registry :=
  let id := .ofIndex registry.states.length
  let state := { requested with name := registry.lookups.freeName requested.name }
  (id, ⟨registry.states ++ [state], registry.lookups.record id state⟩)

/-- The state that governs a key: the first one registered under it. -/
def governing? (registry : Registry) (key : Key) : Option StateId :=
  registry.lookups.governing? key

/-- Whether some state writes a variable in any view. -/
def writes (registry : Registry) (id : VarId) : Bool :=
  registry.lookups.written.contains id

/-- Computes the lookups anew from the states, whatever they were: the names are collected at once,
and the states are gone through for the rest.
-/
def rebuild (registry : Registry) : Registry :=
  let collected := { registry.lookups with names := (registry.states.map State.name).eraseDups }
  ⟨registry.states, collected.clear.indexAll registry.states⟩

/-- The exchange form of a registry: one column per property. -/
structure Columns where
  targets : List Target
  roles : List Role
  formulas : List Formula
  names : List String
  deriving DecidableEq

/-- The columns of a registry. The lookups are not exchanged. -/
def columns (registry : Registry) : Columns where
  targets := registry.states.map State.target
  roles := registry.states.map State.role
  formulas := registry.states.map State.formula
  names := registry.states.map State.name

/-- The registry with the given columns and empty lookups. Rows end with the shortest column. -/
def ofColumns (columns : Columns) : Registry where
  states :=
    ((columns.targets.zip columns.roles).zip (columns.formulas.zip columns.names)).map
      fun row => ⟨row.1.1, row.1.2, row.2.1, row.2.2⟩
  lookups := .empty

end Registry

end StepPlan
