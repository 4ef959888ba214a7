import StepPlan.Proofs.Formula.Shortening

/-! One pass of folding is enough. The code of every piece that a run leaves runs to itself again,
with nothing folded, so a folded formula folds to itself. Since an application to literals with a
finite value would be folded, a folded formula has none. Where a run meets an underflow depends on
the formula alone, so folding fails exactly where a check does.
-/

namespace StepPlan

namespace Formula

variable {α β : Type} {combine : Instruction → List α → α}

-----------------------------------------------------------------------------------------
-- Underflows
-----------------------------------------------------------------------------------------

/-- (UnderflowsAt combine formula found) means that the instructions before a position run, and that
the instruction at the position finds fewer values than it takes.
-/
def UnderflowsAt (combine : Instruction → List α → α) (formula : Formula) (found : Underflow)
    : Prop :=
  formula[found.position]? = some found.instruction
  ∧ ∃ stack,
      Leaves combine [] (formula.take found.position) stack
      ∧ stack.length < found.instruction.pops

/-- A run that fails has run everything before the instruction that it fails at, by induction on the
formula.
-/
theorem runFrom_eq_error_iff {start : Nat} {stack : List α} {formula : Formula}
    {found : Underflow}
    : runFrom combine start stack formula = .error found
      ↔ ∃ offset,
          found.position = start + offset
          ∧ formula[offset]? = some found.instruction
          ∧ ∃ middle,
              Leaves combine stack (formula.take offset) middle
              ∧ middle.length < found.instruction.pops := by
  induction formula generalizing start stack with
  | nil => simp [runFrom]
  | cons instruction rest ih =>
      unfold runFrom
      by_cases missing : stack.length < instruction.pops
      · rw [if_pos missing]
        constructor
        · intro failed
          cases failed
          exact ⟨0, rfl, rfl, stack, leaves_nil.mpr rfl, missing⟩
        · intro underflow
          obtain ⟨offset, position, here, middle, run, few⟩ := underflow
          cases offset with
          | zero =>
              cases found
              simp_all
          | succ offset => exact absurd (leaves_cons.mp run).1 (Nat.not_le.mpr missing)
      · rw [if_neg missing, ih]
        constructor
        · intro underflow
          obtain ⟨offset, position, here, middle, run, few⟩ := underflow
          refine ⟨offset + 1, by omega, here, middle, ?_, few⟩
          exact leaves_cons.mpr ⟨Nat.not_lt.mp missing, run⟩
        · intro underflow
          obtain ⟨offset, position, here, middle, run, few⟩ := underflow
          cases offset with
          | zero =>
              obtain rfl := leaves_nil.mp run
              cases here
              exact absurd few missing
          | succ offset => exact ⟨offset, by omega, here, middle, (leaves_cons.mp run).2, few⟩

theorem run_eq_error_iff {formula : Formula} {found : Underflow}
    : formula.run combine = .error found ↔ UnderflowsAt combine formula found := by
  simp [run, runFrom_eq_error_iff, UnderflowsAt]

/-- Underflows depend on how many values are stacked, and not on what they are. -/
theorem underflowsAt_congr (combine : Instruction → List α → α) (other : Instruction → List β → β)
    {formula : Formula} {found : Underflow} (underflows : UnderflowsAt combine formula found)
    : UnderflowsAt other formula found := by
  obtain ⟨here, stack, run, few⟩ := underflows
  obtain ⟨final, otherRun, length⟩ := run.transfer other [] rfl
  exact ⟨here, final, otherRun, length ▸ few⟩

/-- A check reports the underflow that every run meets. -/
theorem validate_eq_underflow_iff (combine : Instruction → List α → α) {formula : Formula}
    {found : Underflow}
    : formula.validate = .error (.underflow found) ↔ UnderflowsAt combine formula found := by
  have same : UnderflowsAt combine formula found ↔ UnderflowsAt (fun _ _ => ()) formula found :=
    ⟨underflowsAt_congr _ _, underflowsAt_congr _ _⟩
  rw [same, ← run_eq_error_iff]
  unfold validate
  cases formula.run fun _ _ => () with
  | error found => simp
  | ok stack => by_cases many : 1 < stack.length <;> simp [many]

/-- What a check says of a formula that meets no underflow is decided by the number of values that
any run leaves.
-/
theorem validate_of_leaves {formula : Formula} {result : List α}
    (leaves : Leaves combine [] formula result)
    : formula.validate
      = if 1 < result.length then .error (.leftover result.length) else .ok () := by
  obtain ⟨units, unitRun, length⟩ := leaves.transfer (fun _ _ => ()) [] rfl
  have ran : formula.run (fun _ _ => ()) = .ok units := unitRun
  rw [validate, ran, length]

theorem fold_eq_error_iff {formula : Formula} {fault : Fault}
    : formula.fold = .error fault
      ↔ ∃ found,
          fault = .foldUnderflow found.position
          ∧ UnderflowsAt Piece.combine formula found := by
  simp only [← run_eq_error_iff]
  cases ran : formula.run Piece.combine with
  | error found => simp [fold_of_underflow ran, eq_comm]
  | ok stack => simp [fold_of_run ran]

end Formula

-----------------------------------------------------------------------------------------
-- Folding again
-----------------------------------------------------------------------------------------

namespace Piece

/-- The code of a piece, taken as if nothing in it had been folded. -/
def untouched (piece : Piece) : Piece :=
  ⟨piece.code, false⟩

/-- (piece.Stable) means that the code of a piece runs to itself, with nothing folded. -/
def Stable (piece : Piece) : Prop :=
  ∀ stack, piece.code.Leaves combine stack (piece.untouched :: stack)

/-- Whether an application is folded does not depend on what was folded in its operands. -/
theorem fold?_map_untouched (instruction : Instruction) (operands : List Piece)
    : fold? instruction (operands.map untouched) = fold? instruction operands := by
  simp [fold?, List.mapM_map, untouched, Function.comp_def]

theorem stable_number (value : Binary64) (folded : Bool) : Stable ⟨[.number value], folded⟩ :=
  fun _ => Formula.leaves_cons.mpr ⟨Nat.zero_le _, Formula.leaves_nil.mpr rfl⟩

/-- Stable pieces are put on the stack as they are, one after the other. -/
theorem leaves_of_stable {pieces : List Piece} (stable : ∀ piece ∈ pieces, piece.Stable)
    (stack : List Piece)
    : Formula.Leaves combine stack (pieces.flatMap Piece.code)
        ((pieces.map untouched).reverse ++ stack) := by
  rw [List.flatMap_def]
  refine Formula.leaves_flatten ?_ stack
  rw [List.forall₂_map_left_iff, List.forall₂_map_right_iff, List.forall₂_same]
  exact stable

/-- The piece that an instruction makes of stable pieces is stable. Unless it is a literal, it runs
its operands, and its instruction is not folded now because it was not folded before.
-/
theorem Stable.combine {instruction : Instruction} {operands : List Piece}
    (arity : operands.length = instruction.pops) (stable : ∀ piece ∈ operands, piece.Stable)
    : (Piece.combine instruction operands).Stable := by
  cases found : fold? instruction operands with
  | some value =>
      simp only [Piece.combine, found]
      exact stable_number value true
  | none =>
      have again : fold? instruction (operands.map untouched) = none := by
        rw [fold?_map_untouched, found]
      intro stack
      simp only [Piece.combine, found]
      refine Formula.leaves_append.mpr ⟨_, leaves_of_stable stable stack, ?_⟩
      rw [Formula.leaves_cons_of_operands (by simpa using arity), Formula.leaves_nil]
      simp [Piece.combine, again, untouched, List.flatMap_map, List.any_map, Function.comp_def]

/-- An application to literals is folded to its value, if that is finite. -/
theorem fold?_literals (instruction : Instruction) (literals : List Binary64)
    : fold? instruction (literals.map fun literal => ⟨[.number literal], false⟩)
      = (instruction.evaluate? literals).filter Binary64.isFinite := by
  have read : ((literals.map fun literal => (⟨[.number literal], false⟩ : Piece)).mapM
      fun piece : Piece => piece.code.literal?) = some literals := by
    rw [List.mapM_map]
    exact List.mapM_pure.trans (congrArg some (List.map_id literals))
  rw [fold?, read, Option.bind_some]

/-- What was folded on the way shows at the end, by induction on the formula. -/
theorem any_folded_of_leaves {stack result : List Piece} {formula : Formula}
    (ran : formula.Leaves combine stack result) (folded : stack.any Piece.folded = true)
    : result.any Piece.folded = true := by
  induction formula generalizing stack with
  | nil =>
      obtain rfl := Formula.leaves_nil.mp ran
      exact folded
  | cons instruction rest ih =>
      refine ih (Formula.leaves_cons.mp ran).2 ?_
      unfold combine
      split
      · rfl
      · rw [← List.take_append_drop instruction.pops stack, List.any_append] at folded
        simpa using folded

/-- As long as nothing is folded, the stacked code is the code that was read, by induction on the
formula.
-/
theorem code_of_leaves {stack result : List Piece} {formula : Formula}
    (ran : formula.Leaves combine stack result) (unfolded : result.any Piece.folded = false)
    : result.reverse.flatMap Piece.code = stack.reverse.flatMap Piece.code ++ formula := by
  induction formula generalizing stack with
  | nil =>
      obtain rfl := Formula.leaves_nil.mp ran
      simp
  | cons instruction rest ih =>
      have after := (Formula.leaves_cons.mp ran).2
      have split : stack.reverse
          = (stack.drop instruction.pops).reverse ++ (stack.take instruction.pops).reverse := by
        rw [← List.reverse_append, List.take_append_drop]
      rw [ih after, split]
      cases found : fold? instruction (stack.take instruction.pops).reverse with
      | some value =>
          have folded := any_folded_of_leaves after (by simp [combine, found])
          simp [unfolded] at folded
      | none => simp [combine, found]

end Piece

/-- The environment in which everything that is looked up has the same value. -/
def Environment.constant (value : Binary64) : Environment :=
  ⟨fun _ => value, fun _ => value, fun _ => value, fun _ _ => value, fun _ _ => value⟩

namespace Formula

/-- (formula.Reducible) means that somewhere in a formula a builtin takes literals only and has a
finite value for them.
-/
def Reducible (formula : Formula) : Prop :=
  ∃ before literals instruction after value,
    formula = before ++ literals.map .number ++ instruction :: after
    ∧ literals.length = instruction.pops
    ∧ instruction.evaluate? literals = some value
    ∧ value.isFinite = true

variable {formula folded : Formula} {changed : Bool}

theorem fold_eq_self_of_unchanged (done : formula.fold = .ok (folded, false))
    : folded = formula := by
  obtain ⟨pieces, ran, rfl, unfolded⟩ := fold_eq_ok_iff.mp done
  simpa using Piece.code_of_leaves ran unfolded.symm

/-- Folding a folded formula changes nothing. -/
theorem fold_of_fold (done : formula.fold = .ok (folded, changed))
    : folded.fold = .ok (folded, false) := by
  obtain ⟨pieces, ran, rfl, -⟩ := fold_eq_ok_iff.mp done
  have stable : ∀ piece ∈ pieces, piece.Stable :=
    ran.invariant (fun _ _ _ arity known => Piece.Stable.combine arity known) nofun
  have again := Piece.leaves_of_stable
    (fun piece member => stable piece (List.mem_reverse.mp member)) []
  refine fold_eq_ok_iff.mpr ⟨_, again, ?_, ?_⟩
  · simp [← List.map_reverse, List.flatMap_map, Piece.untouched]
  · simp [Piece.untouched]

/-- An application to literals with a finite value is folded. -/
theorem changed_of_reducible (reducible : formula.Reducible)
    (done : formula.fold = .ok (folded, changed))
    : changed = true := by
  obtain ⟨before, literals, instruction, after, value, rfl, arity, evaluated, finite⟩ := reducible
  obtain ⟨pieces, ran, -, rfl⟩ := fold_eq_ok_iff.mp done
  rw [List.append_assoc] at ran
  obtain ⟨below, -, later⟩ := leaves_append.mp ran
  obtain ⟨middle, stacked, rest⟩ := leaves_append.mp later
  have noOperands : ∀ instruction ∈ literals.map Instruction.number, instruction.pops = 0 := by
    simp [Instruction.pops]
  obtain rfl := stacked.unique (leaves_of_no_operands noOperands below)
  rw [leaves_cons_of_operands (by simpa using arity)] at rest
  have known : (literals.map Instruction.number).map (Piece.combine · [])
      = literals.map fun literal => ⟨[.number literal], false⟩ := by
    rw [List.map_map]
    rfl
  rw [known] at rest
  have folds := (Piece.fold?_literals instruction literals).trans
    (by rw [evaluated, Option.filter_some, if_pos finite])
  exact Piece.any_folded_of_leaves rest (by rw [Piece.combine, folds]; rfl)

/-- Folding fails exactly where a check meets an underflow, which is where every run meets it. A
folded formula leaves what the formula leaves, value for value, whatever the instructions mean that
are no builtins. It is as well formed as the formula, and shorter unless it is the same. It holds no
application to literals with a finite value, and folding it again changes nothing.
-/
theorem fold_exact (formula : Formula)
    : (∀ fault,
        formula.fold = .error fault
        ↔ ∃ found,
            fault = .foldUnderflow found.position
            ∧ formula.validate = .error (.underflow found))
      ∧ (∀ (meaning : Instruction → List Binary64 → Binary64) (found : Underflow),
          formula.validate = .error (.underflow found)
          ↔ formula.UnderflowsAt meaning found)
      ∧ ∀ folded changed,
          formula.fold = .ok (folded, changed)
          → (∀ meaning,
              Standard meaning
              → ∃ stack, formula.run meaning = .ok stack ∧ folded.run meaning = .ok stack)
            ∧ folded.validate = formula.validate
            ∧ (changed = true ↔ folded.length < formula.length)
            ∧ (changed = false ↔ folded = formula)
            ∧ ¬ folded.Reducible
            ∧ folded.fold = .ok (folded, false) := by
  refine ⟨?_, fun meaning found => validate_eq_underflow_iff meaning, ?_⟩
  · intro fault
    rw [fold_eq_error_iff]
    simp only [validate_eq_underflow_iff Piece.combine]
  · intro folded changed done
    have again := fold_of_fold done
    refine ⟨fun meaning standard => leaves_of_fold standard done, ?_, ?_, ?_, ?_, again⟩
    · obtain ⟨stack, left, leftAgain⟩ := leaves_of_fold (Environment.constant .nan).standard done
      rw [validate_of_leaves left, validate_of_leaves leftAgain]
    · cases changed with
      | true => simpa using length_lt_of_fold done
      | false => simp [fold_eq_self_of_unchanged done]
    · cases changed with
      | false => simpa using fold_eq_self_of_unchanged done
      | true =>
          simp only [Bool.true_eq_false, false_iff]
          exact fun same => Nat.lt_irrefl _ (same ▸ length_lt_of_fold done)
    · exact fun reducible => Bool.false_ne_true (changed_of_reducible reducible again)

/-- `x * sqrt (2 * 8) + 1 / 0`. -/
def rootAndPole : Formula :=
  [.var (.ofIndex 0), .number ⟨0x4000000000000000⟩, .number ⟨0x4020000000000000⟩,
    .operator .multiply, .elementary .sqrt, .operator .multiply, .number ⟨0x3ff0000000000000⟩,
    .number ⟨0⟩, .operator .divide, .operator .add]

/-- `x * 4 + 1 / 0`. -/
def rootAndPoleFolded : Formula :=
  [.var (.ofIndex 0), .number ⟨0x4010000000000000⟩, .operator .multiply,
    .number ⟨0x3ff0000000000000⟩, .number ⟨0⟩, .operator .divide, .operator .add]

/-- One pass folds the product and its root. The quotient is not finite, so it stays, and so does
the sum around it. Both formulas leave the same where `x` is infinite.
-/
theorem fold_exact_rootAndPole
    : rootAndPole.fold = .ok (rootAndPoleFolded, true)
      ∧ (∃ stack,
          rootAndPole.run (Environment.constant (.infinity true)).combine = .ok stack
          ∧ rootAndPoleFolded.run (Environment.constant (.infinity true)).combine = .ok stack)
      ∧ rootAndPoleFolded.length < rootAndPole.length
      ∧ ¬ rootAndPoleFolded.Reducible
      ∧ rootAndPoleFolded.fold = .ok (rootAndPoleFolded, false) := by
  have evaluated : rootAndPole.fold.toOption = some (rootAndPoleFolded, true) := by
    decide +kernel
  have done : rootAndPole.fold = .ok (rootAndPoleFolded, true) := by
    cases outcome : rootAndPole.fold with
    | error fault =>
        rw [outcome] at evaluated
        nomatch evaluated
    | ok result =>
        rw [outcome] at evaluated
        exact congrArg Except.ok (Option.some.inj evaluated)
  obtain ⟨kept, -, shorter, -, irreducible, again⟩ := (fold_exact rootAndPole).2.2 _ _ done
  exact ⟨done, kept _ (Environment.standard _), shorter.mp rfl, irreducible, again⟩

end Formula

end StepPlan
