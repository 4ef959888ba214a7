import Mathlib.Data.List.Forall2
import StepPlan.Formula

/-! Runs of formulas that meet no underflow. Positions only matter for reporting an underflow,
so such a run is a relation between the stack before and the stack after. Parts of a formula
run one after the other, what lies below the operands is left alone, and how many values are
left does not depend on what is stacked.
-/

namespace StepPlan.Formula

variable {α β : Type} {combine : Instruction → List α → α}

/-- (Leaves combine stack formula result) means that the formula, run on the stack, meets no
underflow and leaves the result.
-/
def Leaves (combine : Instruction → List α → α) (stack : List α) (formula : Formula)
    (result : List α)
    : Prop :=
  runFrom combine 0 stack formula = .ok result

/-- A run without an underflow does not depend on the position it starts at, by induction on
the formula.
-/
theorem leaves_iff_runFrom (position : Nat) {stack result : List α} {formula : Formula}
    : Leaves combine stack formula result
      ↔ runFrom combine position stack formula = .ok result := by
  suffices moved : ∀ first second, runFrom combine first stack formula = .ok result
      → runFrom combine second stack formula = .ok result from
    ⟨moved 0 position, moved position 0⟩
  intro first second
  induction formula generalizing first second stack with
  | nil => exact id
  | cons instruction rest ih =>
      unfold runFrom
      split
      · exact nofun
      · exact ih (first + 1) (second + 1)

-----------------------------------------------------------------------------------------
-- One instruction after the other
-----------------------------------------------------------------------------------------

@[simp]
theorem leaves_nil {stack result : List α} : Leaves combine stack [] result ↔ stack = result := by
  simp [Leaves, runFrom]

/-- An instruction finds its operands, and the rest runs with its value in their place. -/
theorem leaves_cons {stack result : List α} {instruction : Instruction} {rest : Formula}
    : Leaves combine stack (instruction :: rest) result
      ↔ instruction.pops ≤ stack.length
        ∧ Leaves combine
          (combine instruction (stack.take instruction.pops).reverse
            :: stack.drop instruction.pops)
          rest result := by
  rw [Leaves, runFrom, leaves_iff_runFrom 1]
  split
  · rename_i missing
    exact ⟨nofun, fun enough => absurd missing (Nat.not_lt.mpr enough.1)⟩
  · rename_i enough
    exact ⟨fun run => ⟨Nat.not_lt.mp enough, run⟩, And.right⟩

/-- An instruction whose operands lie on top of a stack, the last one first, replaces them by
its value.
-/
theorem leaves_cons_of_operands {operands stack result : List α} {instruction : Instruction}
    {rest : Formula} (arity : operands.length = instruction.pops)
    : Leaves combine (operands.reverse ++ stack) (instruction :: rest) result
      ↔ Leaves combine (combine instruction operands :: stack) rest result := by
  have length : operands.reverse.length = instruction.pops := by rw [List.length_reverse, arity]
  rw [leaves_cons, List.take_left' length, List.drop_left' length, List.reverse_reverse]
  simp only [List.length_append, length, Nat.le_add_right, true_and]

/-- The parts of a formula run one after the other, by induction on the first part. -/
theorem leaves_append {stack result : List α} {first second : Formula}
    : Leaves combine stack (first ++ second) result
      ↔ ∃ middle, Leaves combine stack first middle ∧ Leaves combine middle second result := by
  induction first generalizing stack with
  | nil => simp
  | cons instruction rest ih =>
      simp only [List.cons_append, leaves_cons, ih]
      constructor
      · rintro ⟨enough, middle, run, after⟩
        exact ⟨middle, ⟨enough, run⟩, after⟩
      · rintro ⟨middle, ⟨enough, run⟩, after⟩
        exact ⟨enough, middle, run, after⟩

/-- Instructions without operands put their values on the stack one after the other, by induction
on the formula.
-/
theorem leaves_of_no_operands {formula : Formula}
    (noOperands : ∀ instruction ∈ formula, instruction.pops = 0) (stack : List α)
    : Leaves combine stack formula ((formula.map (combine · [])).reverse ++ stack) := by
  induction formula generalizing stack with
  | nil => exact leaves_nil.mpr rfl
  | cons instruction rest ih =>
      obtain ⟨first, later⟩ := List.forall_mem_cons.mp noOperands
      refine leaves_cons.mpr ⟨by simp [first], ?_⟩
      simpa [first] using ih later (combine instruction [] :: stack)

/-- Parts that each put one value on any stack put their values there one after the other, by
induction on the parts.
-/
theorem leaves_flatten {parts : List Formula} {values : List α}
    (each : List.Forall₂ (fun part value => ∀ stack, Leaves combine stack part (value :: stack))
      parts values)
    (stack : List α)
    : Leaves combine stack parts.flatten (values.reverse ++ stack) := by
  induction each generalizing stack with
  | nil => exact leaves_nil.mpr rfl
  | cons head _ ih =>
      rw [List.flatten_cons, List.reverse_cons, List.append_assoc]
      exact leaves_append.mpr ⟨_, head stack, ih _⟩

theorem Leaves.unique {stack first second : List α} {formula : Formula}
    (one : Leaves combine stack formula first) (other : Leaves combine stack formula second)
    : first = second :=
  Except.ok.inj (one.symm.trans other)

/-- What lies below the values that a run uses is left alone, by induction on the formula. -/
theorem Leaves.frame {stack result : List α} {formula : Formula}
    (run : Leaves combine stack formula result) (below : List α)
    : Leaves combine (stack ++ below) formula (result ++ below) := by
  induction formula generalizing stack with
  | nil => simpa using run
  | cons instruction rest ih =>
      obtain ⟨enough, after⟩ := leaves_cons.mp run
      refine leaves_cons.mpr ⟨Nat.le_trans enough (by simp), ?_⟩
      rw [List.take_append_of_le_length enough, List.drop_append_of_le_length enough]
      exact ih after

/-- What every step keeps of the stacked values holds of the values that are left, by induction on
the formula.
-/
theorem Leaves.invariant {stack result : List α} {formula : Formula}
    (run : Leaves combine stack formula result) {holds : α → Prop}
    (step : ∀ instruction ∈ formula, ∀ operands, operands.length = instruction.pops
      → (∀ value ∈ operands, holds value)
      → holds (combine instruction operands))
    (start : ∀ value ∈ stack, holds value)
    : ∀ value ∈ result, holds value := by
  induction formula generalizing stack with
  | nil =>
      obtain rfl := leaves_nil.mp run
      exact start
  | cons instruction rest ih =>
      obtain ⟨enough, after⟩ := leaves_cons.mp run
      obtain ⟨first, later⟩ := List.forall_mem_cons.mp step
      refine ih after later (List.forall_mem_cons.mpr ⟨first _ (by simp [enough]) ?_, ?_⟩)
      · exact fun value member => start value (List.mem_of_mem_take (List.mem_reverse.mp member))
      · exact fun value member => start value (List.mem_of_mem_drop member)

-----------------------------------------------------------------------------------------
-- How many values are left
-----------------------------------------------------------------------------------------

/-- A relation that every step keeps between the values of two runs holds of what they leave, and
one run meets no underflow where the other meets none. Induction on the formula.
-/
theorem Leaves.relate {stack result : List α} {formula : Formula}
    (run : Leaves combine stack formula result) {other : Instruction → List β → β}
    {related : α → β → Prop}
    (step : ∀ instruction ∈ formula, ∀ operands others, others.length = instruction.pops
      → List.Forall₂ related operands others
      → related (combine instruction operands) (other instruction others))
    {start : List β} (startRelated : List.Forall₂ related stack start)
    : ∃ final, Leaves other start formula final ∧ List.Forall₂ related result final := by
  induction formula generalizing stack start with
  | nil =>
      obtain rfl := leaves_nil.mp run
      exact ⟨start, leaves_nil.mpr rfl, startRelated⟩
  | cons instruction rest ih =>
      obtain ⟨enough, after⟩ := leaves_cons.mp run
      obtain ⟨first, later⟩ := List.forall_mem_cons.mp step
      rw [startRelated.length_eq] at enough
      have value := first _ _ (by simp [enough])
        (List.rel_reverse (List.forall₂_take instruction.pops startRelated))
      obtain ⟨final, finalRun, finalRelated⟩ :=
        ih after later (.cons value (List.forall₂_drop instruction.pops startRelated))
      exact ⟨final, leaves_cons.mpr ⟨enough, finalRun⟩, finalRelated⟩

/-- Whether a run meets an underflow and how many values it leaves depends only on how many
values there are at the start.
-/
theorem Leaves.transfer {stack result : List α} {formula : Formula}
    (run : Leaves combine stack formula result) (other : Instruction → List β → β)
    (start : List β) (sameLength : stack.length = start.length)
    : ∃ final, Leaves other start formula final ∧ result.length = final.length := by
  have anything : List.Forall₂ (fun _ _ => True) stack start :=
    List.forall₂_iff_zip.mpr ⟨sameLength, fun _ => trivial⟩
  obtain ⟨final, finalRun, finalRelated⟩ := run.relate (fun _ _ _ _ _ _ => trivial) anything
  exact ⟨final, finalRun, finalRelated.length_eq⟩

/-- Once there is a value, or an instruction to make one, there is a value at the end. -/
theorem Leaves.ne_nil {stack result : List α} {formula : Formula}
    (run : Leaves combine stack formula result) (source : stack ≠ [] ∨ formula ≠ [])
    : result ≠ [] := by
  induction formula generalizing stack with
  | nil =>
      obtain rfl := leaves_nil.mp run
      simpa using source
  | cons instruction rest ih =>
      exact ih (leaves_cons.mp run).2 (Or.inl (List.cons_ne_nil _ _))

/-- A formula is well formed when a run on nothing leaves at most one value. -/
theorem isValid_iff {formula : Formula}
    : formula.isValid = true
      ↔ ∃ stack : List Unit, Leaves (fun _ _ => ()) [] formula stack ∧ stack.length ≤ 1 := by
  unfold isValid validate run Leaves
  cases runFrom (fun _ _ => ()) 0 [] formula with
  | error found => simp
  | ok stack =>
      by_cases many : 1 < stack.length
      · simp [many]
      · simp [many, Nat.not_lt.mp many]

/-- A well-formed formula that is not empty leaves one value, whatever is stacked. -/
theorem leaves_one {formula : Formula} (valid : formula.isValid = true) (nonempty : formula ≠ [])
    (combine : Instruction → List α → α)
    : ∃ value, Leaves combine [] formula [value] := by
  obtain ⟨units, unitRun, few⟩ := isValid_iff.mp valid
  obtain ⟨values, run, length⟩ := unitRun.transfer combine [] rfl
  have positive : 0 < values.length := List.length_pos_iff.mpr (run.ne_nil (Or.inr nonempty))
  obtain ⟨value, rfl⟩ := List.length_eq_one_iff.mp (show values.length = 1 by omega)
  exact ⟨value, run⟩

end StepPlan.Formula
