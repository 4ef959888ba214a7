import StepPlan.Signature

/-! Codes under keys. The codes that are handed out on demand are kept under texts: the name of a
custom function and the number of a routine, each behind a mark of its own. A counter of 32 bits
says which code comes next.
-/

namespace StepPlan

/-- The text under which the code of a label is kept. -/
def Label.key : Label → String
  | .function name => "f:" ++ name
  | .routine cluster => "routine:" ++ cluster.text

/-- Codes under their keys, the latest first, and the next code. -/
structure KeyTable where
  codes : List (String × UInt32)
  next : UInt32
  deriving DecidableEq

namespace KeyTable

/-- The table that has handed out nothing. -/
def empty : KeyTable :=
  ⟨[], .ofNat Signature.labelBase⟩

/-- How many codes were handed out. -/
def allocated (table : KeyTable) : Nat :=
  table.codes.length

/-- The code under a key, the next one if there is none yet. The counter starts over after
`2 ^ 32` codes.
-/
def allocate (table : KeyTable) (key : String) : UInt32 × KeyTable :=
  match table.codes.lookup key with
  | some code => (code, table)
  | none => (table.next, ⟨(key, table.next) :: table.codes, table.next + 1⟩)

/-- The code of an instruction. -/
def code (table : KeyTable) (instruction : Instruction) : Except Error UInt32 × KeyTable :=
  match instruction with
  | .operator op => (.ok (.ofNat (Signature.operatorBase + op.number)), table)
  | .elementary fn => (.ok (.ofNat (Signature.elementaryBase + fn.number)), table)
  | .customFunction name _ =>
      let (code, table) := table.allocate (Label.function name).key
      (.ok code, table)
  | .routine cluster _ =>
      let (code, table) := table.allocate (Label.routine cluster).key
      (.ok code, table)
  | .customOperator _ name .foreign => (.error (.unsupportedOperator name), table)
  | _ => (.ok (.ofNat Signature.placeholder), table)

/-- The codes of a formula, position by position. -/
def sign (table : KeyTable) : Formula → Except Error (List UInt32) × KeyTable
  | [] => (.ok [], table)
  | instruction :: rest =>
      match table.code instruction with
      | (.error error, table) => (.error error, table)
      | (.ok code, table) =>
          match table.sign rest with
          | (.error error, table) => (.error error, table)
          | (.ok codes, table) => (.ok (code :: codes), table)

end KeyTable

end StepPlan
