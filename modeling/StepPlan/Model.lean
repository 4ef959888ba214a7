import StepPlan.Error
import StepPlan.Total

/-! The model: named variables with flags and, where they are plain abbreviations, a defining
formula. A variable is named by its position.
-/

namespace StepPlan

/-- What is known of a variable besides its definition. -/
structure VariableFlags where
  /-- Set from outside. -/
  input : Bool
  /-- Read from outside. -/
  output : Bool
  /-- Set once, before the first step. -/
  once : Bool
  /-- Advanced by the integrator. -/
  integrated : Bool
  deriving DecidableEq

/-- Flags that demand storage even if no state writes the variable. -/
def VariableFlags.forcesStorage (flags : VariableFlags) : Bool :=
  flags.input || flags.output || flags.once

/-- A variable of the model. -/
structure Variable where
  name : String
  flags : VariableFlags
  definition : Option Formula
  deriving DecidableEq

/-- The variables, each named by its position. -/
structure Model where
  vars : List Variable
  deriving DecidableEq

namespace Model

/-- The model without variables. -/
def empty : Model :=
  ⟨[]⟩

/-- Appends a variable, which is named by the next position. -/
def addVariable (model : Model) (added : Variable) : VarId × Model :=
  (.ofIndex model.vars.length, ⟨model.vars ++ [added]⟩)

/-- The variable with the given name, if the model has it. -/
def get? (model : Model) (id : VarId) : Option Variable :=
  model.vars[id.index]?

/-- The variable with the given name. -/
def get (model : Model) (id : VarId) : Except Error Variable :=
  match model.get? id with
  | some found => .ok found
  | none => .error (.unknownVariable id)

/-- The formula that defines a variable, if there is one. -/
def definition? (model : Model) (id : VarId) : Option Formula :=
  (model.get? id).bind Variable.definition

/-- Replaces the definition of a variable; unknown variables are left out. -/
def define (model : Model) (id : VarId) (definition : Option Formula) : Model :=
  ⟨model.vars.modify id.index fun old => { old with definition := definition }⟩

/-- What messages call a variable. -/
def name (model : Model) (id : VarId) : String :=
  match model.get? id with
  | some found => found.name
  | none => "?"

/-- The first variable that carries a name. -/
def find? (model : Model) (name : String) : Option VarId :=
  (model.vars.findIdx? fun candidate => candidate.name == name).map .ofIndex

/-- The total length of all definitions, which bounds how many variables they mention. -/
def mentions (model : Model) : Nat :=
  total (fun known => (known.definition.getD []).length) model.vars

end Model

end StepPlan
