import StepPlan.Error

/-! Signatures: the structure of a formula as a list of codes. Operands share the placeholder
code, builtins have fixed codes, and custom functions and routines get the next free code when
they are first met. The labels met so far, in order, are all that has to be remembered.
-/

namespace StepPlan

/-- What carries a code that is handed out on demand. -/
inductive Label where
  | function (name : String)
  | routine (cluster : ClusterId)
  deriving DecidableEq

/-- The code of one instruction. -/
abbrev Code := Nat

/-- The codes of a formula, position by position. -/
abbrev Signature := List Code

namespace Signature

/-- The code that all operands share. -/
def placeholder : Code := 0

/-- The code of the first builtin operator. -/
def operatorBase : Code := 1

/-- The code of the first elementary function. -/
def elementaryBase : Code := operatorBase + Operator.count

/-- The first code that is handed out on demand. -/
def labelBase : Code := elementaryBase + Elementary.count

/-- The positions that hold an operand. -/
def placeholders (signature : Signature) : List Nat :=
  (List.range signature.length).filter fun position => signature[position]? == some placeholder

end Signature

/-- The labels that have a code, in the order in which codes were handed out. -/
structure CodeTable where
  labels : List Label
  deriving DecidableEq

namespace CodeTable

/-- The table that has handed out nothing. -/
def empty : CodeTable :=
  ⟨[]⟩

/-- How many codes were handed out. -/
def allocated (table : CodeTable) : Nat :=
  table.labels.length

/-- The code of a label, the next free one if the label is new. -/
def allocate (table : CodeTable) (label : Label) : Code × CodeTable :=
  match table.labels.idxOf? label with
  | some position => (Signature.labelBase + position, table)
  | none => (Signature.labelBase + table.labels.length, ⟨table.labels ++ [label]⟩)

/-- The code of an instruction. Custom operators of unknown structure have none. -/
def code (table : CodeTable) (instruction : Instruction) : Except Error Code × CodeTable :=
  match instruction with
  | .operator op => (.ok (Signature.operatorBase + op.number), table)
  | .elementary fn => (.ok (Signature.elementaryBase + fn.number), table)
  | .customFunction name _ =>
      let (code, table) := table.allocate (.function name)
      (.ok code, table)
  | .routine cluster _ =>
      let (code, table) := table.allocate (.routine cluster)
      (.ok code, table)
  | .customOperator _ name .foreign => (.error (.unsupportedOperator name), table)
  | _ => (.ok Signature.placeholder, table)

/-- The signature of a formula. Codes handed out before a failure stay handed out. -/
def sign (table : CodeTable) : Formula → Except Error Signature × CodeTable
  | [] => (.ok [], table)
  | instruction :: rest =>
      match table.code instruction with
      | (.error error, table) => (.error error, table)
      | (.ok code, table) =>
          match table.sign rest with
          | (.error error, table) => (.error error, table)
          | (.ok codes, table) => (.ok (code :: codes), table)

end CodeTable

end StepPlan
