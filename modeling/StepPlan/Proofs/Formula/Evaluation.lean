import Mathlib.Data.List.Forall2
import StepPlan.Program
import StepPlan.Proofs.Formula.Running

/-! The values of formulas. An environment says what a formula may read and what custom functions
compute. A variable that stands for a definition has the value of the definition, and a call of a
routine has the value that the body of the routine leaves when it is given the operands of the
call. Code without definitions, calls and parameters has its value by an ordinary run.
-/

namespace StepPlan

/-- What formulas may read, and what custom functions compute. -/
structure Environment where
  var : VarId → Binary64
  draw : DrawId → Binary64
  slot : StateId → Binary64
  delayed : OperatorId → String → Binary64
  function : String → List Binary64 → Binary64

/-- Whether the value of an instruction follows from its operands alone: it is no parameter, no
call of a routine and no custom operator of unknown structure.
-/
def Instruction.isPlain : Instruction → Bool
  | .routine _ _ | .argument _ | .customOperator _ _ .foreign => false
  | _ => true

/-- Every operator has a value for the right number of operands. -/
theorem Operator.exists_evaluate? (op : Operator) (operands : List Binary64)
    (count : operands.length = op.arity)
    : ∃ value, op.evaluate? operands = some value := by
  rcases operands with _ | ⟨first, _ | ⟨second, _ | ⟨third, _ | ⟨fourth, rest⟩⟩⟩⟩ <;>
    cases op <;> simp [arity, evaluate?, applyOne?, applyTwo?] at count ⊢

theorem Elementary.exists_evaluate? (fn : Elementary) (operands : List Binary64)
    (count : operands.length = fn.arity)
    : ∃ value, fn.evaluate? operands = some value := by
  rcases operands with _ | ⟨first, _ | ⟨second, _ | ⟨third, rest⟩⟩⟩ <;>
    cases fn <;> simp [arity, evaluate?, applyOne?, applyTwo?] at count ⊢

namespace Environment

/-- The value of an instruction with the given operands. Parameters and calls of routines have
none by themselves, and neither have custom operators of unknown structure.
-/
def value? (environment : Environment) : Instruction → List Binary64 → Option Binary64
  | .number value, _ => some value
  | .var id, _ => some (environment.var id)
  | .draw id, _ => some (environment.draw id)
  | .slot state, _ => some (environment.slot state)
  | .customOperator id name .delayed, _ => some (environment.delayed id name)
  | .customFunction name _, operands => some (environment.function name operands)
  | instruction, operands => instruction.evaluate? operands

/-- The same values, with a NaN where there is none. -/
def combine (environment : Environment) (instruction : Instruction) (operands : List Binary64)
    : Binary64 :=
  (environment.value? instruction operands).getD .nan

/-- A plain instruction with its operands has a value. -/
theorem value?_eq_combine (environment : Environment) {instruction : Instruction}
    {operands : List Binary64} (plain : instruction.isPlain = true)
    (count : operands.length = instruction.pops)
    : environment.value? instruction operands
      = some (environment.combine instruction operands) := by
  suffices valued : ∃ value, environment.value? instruction operands = some value by
    obtain ⟨value, found⟩ := valued
    rw [combine, found, Option.getD_some]
  cases instruction with
  | operator op => exact op.exists_evaluate? operands count
  | elementary fn => exact fn.exists_evaluate? operands count
  | customOperator id name access =>
      cases access with
      | delayed => exact ⟨_, rfl⟩
      | foreign => nomatch plain
  | routine cluster arity => nomatch plain
  | argument slot => nomatch plain
  | number value => exact ⟨value, rfl⟩
  | var id => exact ⟨_, rfl⟩
  | draw id => exact ⟨_, rfl⟩
  | slot state => exact ⟨_, rfl⟩
  | customFunction name arity => exact ⟨_, rfl⟩

end Environment

/-- (model.Abbreviates persistent instruction definition) means that the instruction reads a
variable that keeps no storage of its own and is defined by this formula.
-/
def Model.Abbreviates (model : Model) (persistent : VarId → Bool) (instruction : Instruction)
    (definition : Formula)
    : Prop :=
  ∃ id, instruction = .var id
    ∧ persistent id = false
    ∧ model.definition? id = some definition
    ∧ definition ≠ []

theorem Model.Abbreviates.pops {model : Model} {persistent : VarId → Bool}
    {instruction : Instruction} {definition : Formula}
    (abbreviates : model.Abbreviates persistent instruction definition)
    : instruction.pops = 0 := by
  obtain ⟨id, rfl, _⟩ := abbreviates
  rfl

theorem Model.Abbreviates.ne_nil {model : Model} {persistent : VarId → Bool}
    {instruction : Instruction} {definition : Formula}
    (abbreviates : model.Abbreviates persistent instruction definition)
    : definition ≠ [] := by
  obtain ⟨_, _, _, _, nonempty⟩ := abbreviates
  exact nonempty

theorem Model.Abbreviates.unique {model : Model} {persistent : VarId → Bool}
    {instruction : Instruction} {first second : Formula}
    (one : model.Abbreviates persistent instruction first)
    (other : model.Abbreviates persistent instruction second)
    : first = second := by
  obtain ⟨id, rfl, _, found, _⟩ := one
  obtain ⟨_, same, _, foundAgain, _⟩ := other
  cases same
  exact Option.some.inj (found.symm.trans foundAgain)

namespace Program

/-- What an instruction abbreviates in a program, where storage follows from flags and states. -/
abbrev Abbreviates (program : Program) (instruction : Instruction) (definition : Formula) : Prop :=
  program.model.Abbreviates program.isPersistent instruction definition

/-- (program.Runs environment routines arguments stack formula result) means that the formula
takes the stack to the result, where the routines have the given bodies and parameters have the
values of the arguments.
-/
inductive Runs (program : Program) (environment : Environment)
    (routines : ClusterId → Option Formula)
    : List Binary64 → List Binary64 → Formula → List Binary64 → Prop
  | done {arguments stack : List Binary64}
      : Runs program environment routines arguments stack [] stack
  | value {arguments stack result : List Binary64} {instruction : Instruction} {rest : Formula}
      {value : Binary64}
      (direct : ∀ definition, ¬ program.Abbreviates instruction definition)
      (enough : instruction.pops ≤ stack.length)
      (found : environment.value? instruction (stack.take instruction.pops).reverse = some value)
      (after : Runs program environment routines arguments
        (value :: stack.drop instruction.pops) rest result)
      : Runs program environment routines arguments stack (instruction :: rest) result
  | definition {arguments stack result : List Binary64} {instruction : Instruction}
      {rest definition : Formula} {value : Binary64}
      (abbreviates : program.Abbreviates instruction definition)
      (inside : Runs program environment routines [] [] definition [value])
      (after : Runs program environment routines arguments (value :: stack) rest result)
      : Runs program environment routines arguments stack (instruction :: rest) result
  | argument {arguments stack result : List Binary64} {slot : UInt16} {rest : Formula}
      {value : Binary64}
      (bound : arguments[slot.toNat]? = some value)
      (after : Runs program environment routines arguments (value :: stack) rest result)
      : Runs program environment routines arguments stack (.argument slot :: rest) result
  | routine {arguments stack result : List Binary64} {cluster : ClusterId} {arity : UInt16}
      {rest body : Formula} {value : Binary64}
      (known : routines cluster = some body)
      (enough : arity.toNat ≤ stack.length)
      (inside : Runs program environment routines (stack.take arity.toNat).reverse [] body [value])
      (after : Runs program environment routines arguments
        (value :: stack.drop arity.toNat) rest result)
      : Runs program environment routines arguments stack (.routine cluster arity :: rest) result

/-- (program.Evaluates environment routines formula value) means that the formula, run on an
empty stack, leaves the value and nothing else.
-/
def Evaluates (program : Program) (environment : Environment)
    (routines : ClusterId → Option Formula) (formula : Formula) (value : Binary64)
    : Prop :=
  program.Runs environment routines [] [] formula [value]

/-- A formula has one result, by induction on one of its runs. -/
theorem Runs.unique {program : Program} {environment : Environment}
    {routines : ClusterId → Option Formula} {arguments stack first second : List Binary64}
    {formula : Formula} (one : program.Runs environment routines arguments stack formula first)
    (other : program.Runs environment routines arguments stack formula second)
    : first = second := by
  induction one generalizing second with
  | done =>
      cases other
      rfl
  | value direct _ found _ ih =>
      cases other with
      | value _ _ foundAgain after =>
          cases found.symm.trans foundAgain
          exact ih after
      | definition abbreviates => exact absurd abbreviates (direct _)
      | argument => nomatch found
      | routine => nomatch found
  | definition abbreviates _ _ insideIh ih =>
      cases other with
      | value direct => exact absurd abbreviates (direct _)
      | definition abbreviatesAgain inside after =>
          obtain rfl := abbreviates.unique abbreviatesAgain
          cases insideIh inside
          exact ih after
      | argument => nomatch abbreviates
      | routine => nomatch abbreviates
  | argument bound _ ih =>
      cases other with
      | value _ _ found => nomatch found
      | definition abbreviates => nomatch abbreviates
      | argument boundAgain after =>
          cases bound.symm.trans boundAgain
          exact ih after
  | routine known _ _ _ insideIh ih =>
      cases other with
      | value _ _ found => nomatch found
      | definition abbreviates => nomatch abbreviates
      | routine knownAgain _ inside after =>
          cases known.symm.trans knownAgain
          cases insideIh inside
          exact ih after

/-- A formula that has a value has no other. -/
theorem Evaluates.iff_eq {program : Program} {environment : Environment}
    {routines : ClusterId → Option Formula} {formula : Formula} {value : Binary64}
    (evaluates : program.Evaluates environment routines formula value) (result : Binary64)
    : program.Evaluates environment routines formula result ↔ result = value := by
  constructor
  · intro other
    exact List.singleton_inj.mp (other.unique evaluates)
  · rintro rfl
    exact evaluates

/-- Parts of a formula run one after the other, by induction on the run of the first part. -/
theorem Runs.append {program : Program} {environment : Environment}
    {routines : ClusterId → Option Formula} {arguments stack middle result : List Binary64}
    {first second : Formula}
    (before : program.Runs environment routines arguments stack first middle)
    (after : program.Runs environment routines arguments middle second result)
    : program.Runs environment routines arguments stack (first ++ second) result := by
  induction before with
  | done => exact after
  | value direct enough found _ ih => exact .value direct enough found (ih after)
  | definition abbreviates inside _ _ ih => exact .definition abbreviates inside (ih after)
  | argument bound _ ih => exact .argument bound (ih after)
  | routine known enough inside _ _ ih => exact .routine known enough inside (ih after)

/-- A call whose operands are all that is stacked leaves what the body leaves for them. -/
theorem Runs.call {program : Program} {environment : Environment}
    {routines : ClusterId → Option Formula} {cluster : ClusterId} {arity : UInt16}
    {body : Formula} {operands : List Binary64} {value : Binary64}
    (known : routines cluster = some body) (count : arity.toNat = operands.reverse.length)
    (inside : program.Runs environment routines operands [] body [value])
    (arguments : List Binary64)
    : program.Runs environment routines arguments operands.reverse [.routine cluster arity]
      [value] := by
  have operandsTaken : (operands.reverse.take arity.toNat).reverse = operands := by
    rw [count, List.take_length, List.reverse_reverse]
  have nothingBelow : operands.reverse.drop arity.toNat = [] := by rw [count, List.drop_length]
  exact .routine known (Nat.le_of_eq count) (operandsTaken ▸ inside) (nothingBelow ▸ .done)

-----------------------------------------------------------------------------------------
-- Code without definitions and calls
-----------------------------------------------------------------------------------------

/-- (program.Direct instruction) means that the value of an instruction is a matter of the
environment alone.
-/
structure Direct (program : Program) (instruction : Instruction) : Prop where
  plain : instruction.isPlain = true
  direct : ∀ definition, ¬ program.Abbreviates instruction definition

/-- (StandsFor program environment arguments original replacement) means that the replacement is
the original instruction, or a parameter whose argument has the value of the original.
-/
def StandsFor (program : Program) (environment : Environment) (arguments : List Binary64)
    (original replacement : Instruction)
    : Prop :=
  (replacement = original ∧ program.Direct original)
    ∨ (∃ slot, replacement = .argument slot
      ∧ original.pops = 0
      ∧ arguments[slot.toNat]? = some (environment.combine original []))

/-- Code that stands for a formula, instruction by instruction, leaves what an ordinary run of the
formula leaves.
-/
theorem runs_of_standsFor {program : Program} {environment : Environment}
    {arguments stack result : List Binary64} {formula code : Formula}
    (stands : List.Forall₂ (StandsFor program environment arguments) formula code)
    (run : formula.Leaves environment.combine stack result)
    (routines : ClusterId → Option Formula)
    : program.Runs environment routines arguments stack code result := by
  induction stands generalizing stack with
  | nil =>
      obtain rfl := Formula.leaves_nil.mp run
      exact .done
  | @cons original replacement _ _ head _ ih =>
      obtain ⟨enough, after⟩ := Formula.leaves_cons.mp run
      rcases head with ⟨rfl, direct⟩ | ⟨slot, rfl, noOperands, bound⟩
      · refine .value direct.direct enough ?_ (ih after)
        exact environment.value?_eq_combine direct.plain (by simp [enough])
      · rw [noOperands] at after
        exact .argument bound (ih after)

/-- Direct code leaves what an ordinary run leaves. -/
theorem runs_of_direct {program : Program} {environment : Environment}
    {arguments stack result : List Binary64} {formula : Formula}
    (direct : ∀ instruction ∈ formula, program.Direct instruction)
    (run : formula.Leaves environment.combine stack result)
    (routines : ClusterId → Option Formula)
    : program.Runs environment routines arguments stack formula result := by
  refine runs_of_standsFor (List.forall₂_same.mpr ?_) run routines
  exact fun instruction member => Or.inl ⟨rfl, direct instruction member⟩

end Program

end StepPlan
