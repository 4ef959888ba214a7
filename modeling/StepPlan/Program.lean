import StepPlan.Formula.Expand
import StepPlan.Formula.Fold
import StepPlan.Registry

/-! What is compiled: a model together with the states registered for it. Whether a variable
keeps storage of its own depends on both, and so does the form in which a formula takes part
in the search for clusters.
-/

namespace StepPlan

/-- A model and the states registered for it. -/
structure Program where
  model : Model
  registry : Registry
  deriving DecidableEq

/-- A formula with its definitions expanded, and folded where folding changed something. -/
structure Prepared where
  expanded : Formula
  folded : Option Formula
  deriving DecidableEq

/-- The forms in which a formula may join a cluster. -/
def Prepared.candidates (prepared : Prepared) : List Formula :=
  prepared.expanded :: prepared.folded.toList

namespace Program

/-- The program without variables and states. -/
def empty : Program :=
  ⟨.empty, .empty⟩

/-- A variable keeps its own storage if a flag demands it or a state writes it. -/
def isPersistent (program : Program) (id : VarId) : Bool :=
  (match program.model.get? id with
    | some found => found.flags.forcesStorage
    | none => false) || program.registry.writes id

/-- Expands a formula. -/
def expand (program : Program) (formula : Formula) : Except Error Formula :=
  formula.expand program.model program.isPersistent

/-- Expands a formula and folds the result. -/
def prepareFormula (program : Program) (formula : Formula) : Except Error Prepared :=
  match program.expand formula with
  | .error error => .error error
  | .ok expanded =>
      match expanded.fold with
      | .error fault => .error (.malformed fault)
      | .ok (folded, changed) => .ok ⟨expanded, if changed then some folded else none⟩

/-- Prepares the formula of a registered state. -/
def prepare (program : Program) (id : StateId) : Except Error Prepared :=
  match program.registry.get id with
  | .error error => .error error
  | .ok state => program.prepareFormula state.formula

/-- Prepares several states in order, until one fails. -/
def prepareAll (program : Program) : List StateId → Except Error (List (StateId × Prepared))
  | [] => .ok []
  | id :: rest =>
      match program.prepare id with
      | .error error => .error error
      | .ok prepared =>
          match program.prepareAll rest with
          | .error error => .error error
          | .ok entries => .ok ((id, prepared) :: entries)

/-- Initializers of input and once variables are set from outside, so they read nothing. -/
def isBareInitializer (program : Program) (state : State) : Bool :=
  match state.role, state.target with
  | .initialization, .var id =>
      match program.model.get? id with
      | some found => found.flags.input || found.flags.once
      | none => false
  | _, _ => false

end Program

end StepPlan
