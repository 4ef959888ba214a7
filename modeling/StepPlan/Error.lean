import StepPlan.Formula
import StepPlan.Key
import StepPlan.Text.Quoted

/-! Why a compilation fails, and how each failure is worded. -/

namespace StepPlan

/-- The causes for which a request is refused. -/
inductive Error where
  /-- A custom operator of unknown structure cannot be signed. -/
  | unsupportedOperator (name : String)
  /-- A referenced key that no state provides, with the names of the nodes that refer to it. -/
  | danglingReference (key : Key) (referrers : List String)
  /-- Definitions or dependencies go round in a circle. `remaining` names what is stuck and
  `cycle` what lies on the circle.
  -/
  | cycleDetected (remaining cycle : List String)
  | malformed (fault : Fault)
  | unknownVariable (id : VarId)
  | unknownState (id : StateId)
  deriving DecidableEq

namespace Instruction

/-- An instruction that takes operands, as messages describe it. -/
def description : Instruction → String
  | .operator op => "Operator(" ++ Tagged.tag op ++ ")"
  | .elementary fn => "Function(" ++ Tagged.tag fn ++ ")"
  | .customFunction name arity =>
      "CustomFunction \x7b name: " ++ Text.quote name ++ ", arity: " ++ toString arity.toNat
        ++ " \x7d"
  | .routine cluster arity =>
      "Routine \x7b cluster: ClusterId(" ++ cluster.text ++ "), arity: "
        ++ toString arity.toNat ++ " \x7d"
  | other => other.mark

end Instruction

/-- The wording of a fault. -/
def Fault.message : Fault → String
  | .underflow found =>
      "stack underflow at position " ++ toString found.position ++ " ("
        ++ found.instruction.description ++ ")"
  | .foldUnderflow position => "stack underflow at position " ++ toString position
  | .leftover count => toString count ++ " values left on the stack"

/-- The wording of a failure. -/
def Error.message : Error → String
  | .unsupportedOperator name => "Unsupported construct: custom operator `" ++ name ++ "`"
  | .danglingReference key referrers =>
      "Dangling reference to " ++ key.text ++ " (referenced by " ++ Text.quoteList referrers
        ++ ")"
  | .cycleDetected remaining _ => "Cycle detected among " ++ Text.quoteList remaining
  | .malformed fault => "Malformed expression: " ++ fault.message
  | .unknownVariable id => "Unknown variable VarId(" ++ id.text ++ ")"
  | .unknownState id => "Unknown state StateId(" ++ id.text ++ ")"

end StepPlan
