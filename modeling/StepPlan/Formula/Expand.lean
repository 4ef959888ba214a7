import StepPlan.Model

/-! Expansion of definitions. A variable without storage of its own is replaced by its
definition, recursively and from left to right. The variables under expansion form a chain; a
variable that comes up again while it is on the chain closes a cycle of definitions.
-/

namespace StepPlan

namespace Model

/-- The definition to splice in for an instruction: it reads a variable that is not persistent
and has a non-empty definition.
-/
def splice? (model : Model) (persistent : VarId → Bool)
    : Instruction → Option (VarId × Formula)
  | .var id =>
      if persistent id then none
      else ((model.definition? id).filter fun formula => !formula.isEmpty).map fun formula =>
        (id, formula)
  | _ => none

/-- The failure of a variable that is met again while on the chain, which lists the outermost
variable first. It names the part of the chain from that variable on.
-/
def definitionCycle (model : Model) (chain : List VarId) (id : VarId) : Error :=
  let cycle := (chain.dropWhile fun outer => decide (outer ≠ id)).map model.name
  .cycleDetected cycle cycle

end Model

namespace Formula

/-- Replaces every instruction by a formula, from left to right, until one fails. -/
def substitute (replace : Instruction → Except Error Formula) : Formula → Except Error Formula
  | [] => .ok []
  | instruction :: rest =>
      match replace instruction with
      | .error error => .error error
      | .ok formula =>
          match substitute replace rest with
          | .error error => .error error
          | .ok formulas => .ok (formula ++ formulas)

/-- Expands a formula inside the definitions of the variables on the chain. `depth` bounds how
many further definitions may be entered one inside the other.
-/
def expandWithin (model : Model) (persistent : VarId → Bool)
    : (depth : Nat) → (chain : List VarId) → Formula → Except Error Formula
  | 0, chain, _ => .error (.cycleDetected (chain.map model.name) (chain.map model.name))
  | depth + 1, chain, formula =>
      formula.substitute fun instruction =>
        match model.splice? persistent instruction with
        | none => .ok [instruction]
        | some (id, definition) =>
            if id ∈ chain then .error (model.definitionCycle chain id)
            else expandWithin model persistent depth (chain ++ [id]) definition

/-- Splices in the definition of every variable that is not persistent, recursively. The chain
holds distinct variables of the model, so it never grows beyond their number.
-/
def expand (model : Model) (persistent : VarId → Bool) (formula : Formula)
    : Except Error Formula :=
  expandWithin model persistent (model.vars.length + 1) [] formula

end Formula

end StepPlan
