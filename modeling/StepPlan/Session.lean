import StepPlan.Json.Exchange

/-! One compilation: a program, the options, and the codes and referents remembered from one
request to the next. Whatever a failing request has remembered by then stays remembered.
-/

namespace StepPlan

/-- The state of a compilation between requests. -/
structure Session where
  program : Program
  options : Options
  codes : CodeTable
  memo : Memo
  deriving DecidableEq

namespace Session

/-- A compilation of nothing with the given options. -/
def start (options : Options) : Session :=
  ⟨.empty, options.normalized, .empty, .empty⟩

/-- Adds a variable to the model. -/
def addVariable (session : Session) (added : Variable) : VarId × Session :=
  let (id, model) := session.program.model.addVariable added
  (id, { session with program := { session.program with model := model } })

/-- Replaces the definition of a variable. What is remembered stays. -/
def define (session : Session) (id : VarId) (definition : Option Formula) : Session :=
  { session with
    program := { session.program with model := session.program.model.define id definition } }

/-- Registers a state as it is. What is remembered stays. -/
def register (session : Session) (state : State) : StateId × Session :=
  let (id, registry) := session.program.registry.add state
  (id, { session with program := { session.program with registry := registry } })

/-- Whether a state may be added: its formula is well formed and a variable it writes exists. -/
def admissible (session : Session) (state : State) : Except Error Unit :=
  match state.formula.validate with
  | .error fault => .error (.malformed fault)
  | .ok _ =>
      match state.target with
      | .var id =>
          match session.program.model.get id with
          | .error error => .error error
          | .ok _ => .ok ()
      | _ => .ok ()

/-- Adds a state. Referents depend on which keys have states, so they are forgotten. -/
def addState (session : Session) (state : State) : Except Error (StateId × Session) :=
  match session.admissible state with
  | .error error => .error error
  | .ok _ => .ok ({ session with memo := .empty }.register state)

/-- Signs a formula. -/
def sign (session : Session) (formula : Formula) : Except Error Signature × Session :=
  let (signature, codes) := session.codes.sign formula
  (signature, { session with codes := codes })

/-- Searches the given states for clusters. Repeated states count once. -/
def mineFor (session : Session) (states : List StateId) : Except Error ClusterSet × Session :=
  match session.program.prepareAll states.eraseDups with
  | .error error => (.error error, session)
  | .ok entries =>
      let (set, codes) := mine session.options session.codes entries
      (set, { session with codes := codes })

/-- Searches all registered states for clusters. -/
def mineAll (session : Session) : Except Error ClusterSet × Session :=
  session.mineFor session.program.registry.ids

/-- Builds the dependency graph over the given states. -/
def buildFor (session : Session) (states : List StateId) (clusters : Option ClusterSet)
    : Except Error Graph × Session :=
  let (graph, memo) := Graph.build session.program session.memo clusters states
  (graph, { session with memo := memo })

/-- Builds the dependency graph over all registered states. -/
def buildAll (session : Session) (clusters : Option ClusterSet)
    : Except Error Graph × Session :=
  session.buildFor session.program.registry.ids clusters

/-- Forgets codes and referents. The states stay. -/
def reset (session : Session) : Session :=
  { session with codes := .empty, memo := .empty }

/-- Writes the registry as text and reads it back, with its lookups rebuilt or empty. Fails if
the text cannot be read, which is so when it holds a literal that is not finite.
-/
def reload? (session : Session) (rebuild : Bool) : Option Session :=
  (readText? (writeText session.program.registry.columns)).map fun columns =>
    let registry := Registry.ofColumns columns
    { session with
      program :=
        { session.program with registry := if rebuild then registry.rebuild else registry } }

end Session

end StepPlan
