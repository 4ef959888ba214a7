import StepPlan.Instruction

/-! Formulas: instruction lists run from left to right on a stack. What is stacked is left
open. Running with values evaluates a formula, running with pieces of code transforms it, and
running with nothing at all checks that no instruction finds too few values. A formula is well
formed when such a run leaves at most one value.
-/

namespace StepPlan

/-- A formula, operands before the instruction that takes them. -/
abbrev Formula := List Instruction

/-- An instruction that finds fewer values on the stack than it takes. -/
structure Underflow where
  position : Nat
  instruction : Instruction
  deriving DecidableEq

/-- Why a formula is malformed. -/
inductive Fault where
  /-- A check met an underflow. -/
  | underflow (found : Underflow)
  /-- Folding met an underflow. -/
  | foldUnderflow (position : Nat)
  /-- More than one value is left at the end. -/
  | leftover (count : Nat)
  deriving DecidableEq

namespace Formula

variable {α : Type}

/-- Runs the rest of a formula, whose first instruction stands at the given position, on a stack
with its top in front. `combine` makes the value of an instruction from its operands, which it
receives in the order in which they were stacked.
-/
def runFrom (combine : Instruction → List α → α)
    : Nat → List α → Formula → Except Underflow (List α)
  | _, stack, [] => .ok stack
  | position, stack, instruction :: rest =>
      if stack.length < instruction.pops then .error ⟨position, instruction⟩
      else
        let operands := (stack.take instruction.pops).reverse
        let value := combine instruction operands
        runFrom combine (position + 1) (value :: stack.drop instruction.pops) rest

/-- Runs a formula on an empty stack. -/
def run (combine : Instruction → List α → α) (formula : Formula)
    : Except Underflow (List α) :=
  runFrom combine 0 [] formula

/-- Checks that a formula never underflows and leaves at most one value. -/
def validate (formula : Formula) : Except Fault Unit :=
  match formula.run (fun _ _ => ()) with
  | .error found => .error (.underflow found)
  | .ok stack => if 1 < stack.length then .error (.leftover stack.length) else .ok ()

/-- Whether a formula is well formed. -/
def isValid (formula : Formula) : Bool :=
  match formula.validate with
  | .ok _ => true
  | .error _ => false

/-- The parts after the first, each followed by an addition. -/
def sumRest : List Formula → Formula
  | [] => []
  | part :: rest => part ++ .operator .add :: sumRest rest

/-- The sum of several formulas: each part after the first is followed by an addition. -/
def sum : List Formula → Formula
  | [] => []
  | first :: rest => first ++ sumRest rest

/-- The literal that makes up the whole formula, if there is one. -/
def literal? : Formula → Option Binary64
  | [.number value] => some value
  | _ => none

/-- The variables that a formula reads, with repetitions. -/
def vars (formula : Formula) : List VarId :=
  formula.filterMap fun
    | .var id => some id
    | _ => none

/-- The structure of a formula as text, one mark per instruction. It does not depend on how
codes were handed out, which makes it fit for ordering.
-/
def shape (formula : Formula) : String :=
  " ".intercalate (formula.map Instruction.mark)

end Formula

end StepPlan
