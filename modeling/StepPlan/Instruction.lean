import StepPlan.Builtin
import StepPlan.Ident

/-! The instructions that formulas are made of. Every instruction takes a fixed number of
values from a stack and leaves one. Those that take none and stand for a value to be looked
up are the operands: formulas that differ only in their operands have the same structure.
-/

namespace StepPlan

/-- How a custom operator takes part in structural matching. -/
inductive Access where
  /-- Reads a slot of a delay line, so it stands where any operand may stand. -/
  | delayed
  /-- Anything else, about whose structure nothing is known. -/
  | foreign
  deriving DecidableEq

instance : Tagged Access where
  all := [.delayed, .foreign]
  tag
    | .delayed => "Delayed"
    | .foreign => "Opaque"

/-- One step of a formula. -/
inductive Instruction where
  /-- A literal, identified by its bits. -/
  | number (value : Binary64)
  /-- The value of a variable. -/
  | var (id : VarId)
  | operator (op : Operator)
  | elementary (fn : Elementary)
  | customFunction (name : String) (arity : UInt16)
  | customOperator (id : OperatorId) (name : String) (access : Access)
  /-- The value of a random draw. -/
  | draw (id : DrawId)
  /-- The value that another state has stored. -/
  | slot (state : StateId)
  /-- A call of the routine shared by a cluster. -/
  | routine (cluster : ClusterId) (arity : UInt16)
  /-- A parameter inside the body of a routine. -/
  | argument (slot : UInt16)
  deriving DecidableEq

namespace Instruction

/-- Whether an instruction is an operand, which structural comparison leaves out. -/
def isOperand : Instruction → Bool
  | .number _ | .var _ | .draw _ | .slot _ | .argument _ => true
  | .customOperator _ _ .delayed => true
  | _ => false

/-- How many values an instruction takes from the stack. -/
def pops : Instruction → Nat
  | .operator op => op.arity
  | .elementary fn => fn.arity
  | .customFunction _ arity => arity.toNat
  | .routine _ arity => arity.toNat
  | _ => 0

/-- How many values an instruction leaves on the stack. -/
def pushes (_ : Instruction) : Nat :=
  1

/-- The value of a builtin applied to literals. -/
def evaluate? : Instruction → List Binary64 → Option Binary64
  | .operator op, operands => op.evaluate? operands
  | .elementary fn, operands => fn.evaluate? operands
  | _, _ => none

/-- Equality up to the values of literals: both zeros are equal and a NaN equals nothing. Plain
equality, in contrast, compares literals by their bits.
-/
def sameValue : Instruction → Instruction → Bool
  | .number x, .number y => x.sameValue y
  | first, second => first == second

/-- The mark of an instruction in the shape of a formula. Operands share one mark. -/
def mark (instruction : Instruction) : String :=
  if instruction.isOperand then "_"
  else
    match instruction with
    | .operator op => op.symbol
    | .elementary fn => fn.name
    | .customFunction name arity => name ++ "/" ++ toString arity.toNat
    | .routine cluster arity => "routine" ++ cluster.text ++ "/" ++ toString arity.toNat
    | .customOperator _ name _ => "op:" ++ name
    | _ => "?"

end Instruction

end StepPlan
