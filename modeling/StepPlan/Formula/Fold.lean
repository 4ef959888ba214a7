import StepPlan.Formula

/-! Constant folding. A formula is gone through once, and what it folds to is written down. Beside
it a stack holds, for each value that a run would have there, the literal that the value is, if its
code is a literal. A builtin whose operands are all literals takes them back and writes its value,
so a folded value is a literal operand in its turn and one pass reaches the fixed point. Values that
are not finite stay unfolded, because they cannot be written as literals.
-/

namespace StepPlan

/-- The finite value of a builtin whose operands are all literals. -/
def Instruction.fold? (instruction : Instruction) (operands : List (Option Binary64))
    : Option Binary64 :=
  (operands.mapM id).bind fun literals =>
    (instruction.evaluate? literals).filter Binary64.isFinite

/-- A pass that folds a formula: the code written so far, the literals on the stack with the top
first, and whether some application was folded.
-/
structure Folding where
  code : Formula
  stack : List (Option Binary64)
  changed : Bool
  deriving DecidableEq

namespace Folding

/-- Before the first instruction. -/
def start : Folding :=
  ⟨[], [], false⟩

/-- Reads one instruction whose operands are on the stack. If it is folded, the code of its operands
is one literal each at the end of the code.
-/
def step (pass : Folding) (instruction : Instruction) : Folding :=
  let operands := (pass.stack.take instruction.pops).reverse
  let rest := pass.stack.drop instruction.pops
  match instruction.fold? operands with
  | none =>
      { pass with
        code := pass.code ++ [instruction]
        stack := Formula.literal? [instruction] :: rest }
  | some value =>
      { code := pass.code.take (pass.code.length - instruction.pops) ++ [.number value]
        stack := some value :: rest
        changed := true }

/-- Reads the rest of a formula from a position on. -/
def readFrom : Nat → Folding → Formula → Except Fault Folding
  | _, pass, [] => .ok pass
  | position, pass, instruction :: rest =>
      if pass.stack.length < instruction.pops then .error (.foldUnderflow position)
      else readFrom (position + 1) (pass.step instruction) rest

end Folding

/-- Folds every builtin application to literals whose value is finite, and tells whether there
was any.
-/
def Formula.fold (formula : Formula) : Except Fault (Formula × Bool) :=
  match Folding.readFrom 0 .start formula with
  | .error fault => .error fault
  | .ok pass => .ok (pass.code, pass.changed)

end StepPlan
