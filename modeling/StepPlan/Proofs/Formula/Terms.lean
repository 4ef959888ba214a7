import Mathlib.Data.List.OfFn
import Mathlib.Order.Bounds.Basic
import StepPlan.Proofs.Formula.FixedPoint

/-! Formulas and terms. A formula lists a term when it runs through the term from the leaves to the
root, operands before the instruction that takes them. A run that stacks terms reads a formula back
into the terms that it lists, and there is only one such reading. So a check accepts what lists at
most one term, counts the terms where there are more, and stops where no further term begins.
-/

namespace StepPlan

/-- A term: an instruction applied to as many terms as it takes values. -/
inductive Term where
  | apply (instruction : Instruction) (operands : Fin instruction.pops → Term)

namespace Term

variable {α : Type}

/-- The instructions of a term in postfix order: those of its operands one after the other, and then
its own.
-/
def listing : Term → Formula
  | .apply instruction operands =>
      (List.ofFn fun place => (operands place).listing).flatten ++ [instruction]

/-- The value of a term. -/
def value (combine : Instruction → List α → α) : Term → α
  | .apply instruction operands =>
      combine instruction (List.ofFn fun place => (operands place).value combine)

theorem listing_apply (instruction : Instruction) (operands : Fin instruction.pops → Term)
    : (apply instruction operands).listing
      = (List.ofFn operands).flatMap listing ++ [instruction] := by
  rw [List.flatMap_def, List.map_ofFn]
  rfl

theorem listing_ne_nil (term : Term) : term.listing ≠ [] := by
  cases term
  simp [listing_apply]

theorem value_apply (meaning : Instruction → List α → α) (instruction : Instruction)
    (operands : Fin instruction.pops → Term)
    : (apply instruction operands).value meaning
      = meaning instruction ((List.ofFn operands).map (value meaning)) := by
  rw [List.map_ofFn]
  rfl

/-- A literal, which stands in for operands that are missing. -/
def filler : Term :=
  .apply (.number .nan) Fin.elim0

/-- The term that an instruction makes from its operands. -/
def combine (instruction : Instruction) (operands : List Term) : Term :=
  .apply instruction fun place => operands.getD place filler

/-- With the right number of operands nothing is filled in. -/
theorem ofFn_getD {count : Nat} {operands : List Term} (length : operands.length = count)
    : (List.ofFn fun place : Fin count => operands.getD place filler) = operands := by
  refine List.ext_getElem (by simp [length]) ?_
  intro place _ known
  simp [known]

theorem listing_combine {instruction : Instruction} {operands : List Term}
    (length : operands.length = instruction.pops)
    : (combine instruction operands).listing = operands.flatMap listing ++ [instruction] := by
  rw [combine, listing_apply, ofFn_getD length]

theorem value_combine (meaning : Instruction → List α → α) {instruction : Instruction}
    {operands : List Term} (length : operands.length = instruction.pops)
    : (combine instruction operands).value meaning
      = meaning instruction (operands.map (value meaning)) := by
  rw [combine, value_apply, ofFn_getD length]

/-- The value of a term, where values are terms, is the term itself. Induction on the term. -/
theorem value_eq_self (term : Term) : term.value combine = term := by
  induction term with
  | apply instruction operands ih =>
      simp only [value, ih, combine]
      congr 1
      funext place
      simp

/-- Terms whose listings put their values on any stack do so one after the other. -/
theorem leaves_flatMap_of_leaves {meaning : Instruction → List α → α} {terms : List Term}
    (each
      : ∀ term ∈ terms,
          ∀ stack, Formula.Leaves meaning stack term.listing (term.value meaning :: stack))
    (stack : List α)
    : Formula.Leaves meaning stack (terms.flatMap listing)
        ((terms.map (value meaning)).reverse ++ stack) := by
  rw [List.flatMap_def]
  apply Formula.leaves_flatten
  rw [List.forall₂_map_left_iff, List.forall₂_map_right_iff, List.forall₂_same]
  exact each

/-- The listing of a term puts its value on the stack, by induction on the term: the operands put
their values there first.
-/
theorem leaves_listing (meaning : Instruction → List α → α) (term : Term) (stack : List α)
    : Formula.Leaves meaning stack term.listing (term.value meaning :: stack) := by
  induction term generalizing stack with
  | apply instruction operands ih =>
      have each : ∀ term ∈ List.ofFn operands, ∀ stack,
          Formula.Leaves meaning stack term.listing (term.value meaning :: stack) := by
        intro term member
        obtain ⟨place, rfl⟩ := List.mem_ofFn.mp member
        exact ih place
      rw [listing_apply, value_apply]
      refine Formula.leaves_append.mpr ⟨_, leaves_flatMap_of_leaves each stack, ?_⟩
      rw [Formula.leaves_cons_of_operands (by simp)]
      exact Formula.leaves_nil.mpr rfl

/-- What a run has stacked lists all that it has read, by induction on the formula. -/
theorem flatMap_listing_of_leaves {stack result : List Term} {formula : Formula}
    (run : formula.Leaves combine stack result)
    : result.reverse.flatMap listing = stack.reverse.flatMap listing ++ formula := by
  induction formula generalizing stack with
  | nil =>
      obtain rfl := Formula.leaves_nil.mp run
      simp
  | cons instruction rest ih =>
      obtain ⟨enough, after⟩ := Formula.leaves_cons.mp run
      have length : (stack.take instruction.pops).reverse.length = instruction.pops := by
        simp [enough]
      have split : stack.reverse
          = (stack.drop instruction.pops).reverse ++ (stack.take instruction.pops).reverse := by
        rw [← List.reverse_append, List.take_append_drop]
      rw [ih after, split]
      simp [listing_combine length]

/-- A run that stacks terms reads a formula back into the terms that it lists. -/
theorem leaves_combine_iff {formula : Formula} {terms : List Term}
    : formula.Leaves combine [] terms.reverse ↔ terms.flatMap listing = formula := by
  constructor
  · intro run
    simpa using flatMap_listing_of_leaves run
  · rintro rfl
    have values : terms.map (value combine) = terms := by simp [funext value_eq_self]
    have run : Formula.Leaves combine [] (terms.flatMap listing)
        ((terms.map (value combine)).reverse ++ []) :=
      leaves_flatMap_of_leaves (fun term _ => term.leaves_listing combine) []
    rwa [values, List.append_nil] at run

/-- A formula lists terms in one way at most. -/
theorem flatMap_listing_inj {first second : List Term}
    (same : first.flatMap listing = second.flatMap listing)
    : first = second := by
  have run := leaves_combine_iff.mpr same
  exact List.reverse_injective (run.unique (leaves_combine_iff.mpr rfl))

end Term

namespace Formula

-----------------------------------------------------------------------------------------
-- What a check says
-----------------------------------------------------------------------------------------

/-- A check counts the terms that a formula lists. -/
theorem validate_flatMap_listing (terms : List Term)
    : validate (terms.flatMap Term.listing)
      = if 1 < terms.length then .error (.leftover terms.length) else .ok () := by
  have run := Term.leaves_combine_iff.mpr (Eq.refl (terms.flatMap Term.listing))
  simpa using validate_of_leaves run

/-- A formula that meets an underflow lists no terms. -/
theorem flatMap_listing_ne {formula : Formula} {found : Underflow}
    (checked : formula.validate = .error (.underflow found)) (terms : List Term)
    : terms.flatMap Term.listing ≠ formula := by
  rintro rfl
  rw [validate_flatMap_listing] at checked
  split at checked <;> cases checked

/-- A formula lists terms, or it meets an underflow. -/
theorem lists_or_underflows (formula : Formula)
    : (∃ terms : List Term, terms.flatMap Term.listing = formula)
      ∨ ∃ found, formula.validate = .error (.underflow found) := by
  cases outcome : formula.run Term.combine with
  | ok stack =>
      refine Or.inl ⟨stack.reverse, Term.leaves_combine_iff.mp ?_⟩
      rw [List.reverse_reverse]
      exact outcome
  | error found =>
      exact Or.inr ⟨found, (validate_eq_underflow_iff _).mpr (run_eq_error_iff.mp outcome)⟩

/-- Before an underflow a formula lists terms. -/
theorem UnderflowsAt.exists_terms {formula : Formula} {found : Underflow}
    (underflows : formula.UnderflowsAt Term.combine found)
    : ∃ terms : List Term, terms.flatMap Term.listing = formula.take found.position := by
  obtain ⟨_, stack, run, _⟩ := underflows
  refine ⟨stack.reverse, Term.leaves_combine_iff.mp ?_⟩
  rwa [List.reverse_reverse]

/-- No listing of terms gets past an underflow: running it meets the underflow too. -/
theorem UnderflowsAt.length_le {formula : Formula} {found : Underflow}
    (underflows : formula.UnderflowsAt Term.combine found) {terms : List Term}
    (front : terms.flatMap Term.listing <+: formula)
    : (terms.flatMap Term.listing).length ≤ found.position := by
  obtain ⟨here, stack, run, few⟩ := underflows
  have whole := Term.leaves_combine_iff.mpr (Eq.refl (terms.flatMap Term.listing))
  generalize terms.flatMap Term.listing = listed at front whole
  obtain ⟨rest, rfl⟩ := front
  by_contra past
  rw [Nat.not_le] at past
  rw [List.getElem?_append_left past, List.getElem?_eq_some_iff] at here
  rw [List.take_append_of_le_length (Nat.le_of_lt past)] at run
  obtain ⟨_, here⟩ := here
  rw [← List.take_append_drop found.position listed, List.drop_eq_getElem_cons past, here] at whole
  obtain ⟨middle, before, after⟩ := leaves_append.mp whole
  obtain rfl := run.unique before
  exact Nat.not_le.mpr few (leaves_cons.mp after).1

/-- The lengths of the parts at the front of a formula that list terms. -/
def listedLengths (formula : Formula) : Set Nat :=
  {length | ∃ terms : List Term,
    terms.flatMap Term.listing <+: formula ∧ (terms.flatMap Term.listing).length = length}

/-- An underflow is met after the longest part that lists terms. -/
theorem UnderflowsAt.isGreatest {formula : Formula} {found : Underflow}
    (underflows : formula.UnderflowsAt Term.combine found)
    : IsGreatest formula.listedLengths found.position := by
  constructor
  · obtain ⟨terms, lists⟩ := underflows.exists_terms
    refine ⟨terms, lists ▸ List.take_prefix _ _, ?_⟩
    rw [lists, List.length_take_of_le]
    exact Nat.le_of_lt (List.getElem?_eq_some_iff.mp underflows.1).1
  · rintro length ⟨terms, front, rfl⟩
    exact underflows.length_le front

/-- A check accepts a formula that lists one term or none. -/
theorem validate_eq_ok_iff {formula : Formula}
    : formula.validate = .ok () ↔ formula = [] ∨ ∃ term : Term, term.listing = formula := by
  constructor
  · intro accepted
    rcases formula.lists_or_underflows with ⟨terms, rfl⟩ | ⟨found, checked⟩
    · rw [validate_flatMap_listing] at accepted
      rcases terms with _ | ⟨term, _ | ⟨second, rest⟩⟩
      · exact Or.inl rfl
      · exact Or.inr ⟨term, by simp⟩
      · simp at accepted
    · cases accepted.symm.trans checked
  · rintro (rfl | ⟨term, rfl⟩)
    · rfl
    · simpa using validate_flatMap_listing [term]

/-- A check reports leftovers if a formula lists several terms, and counts them. -/
theorem validate_eq_leftover_iff {formula : Formula} {count : Nat}
    : formula.validate = .error (.leftover count)
      ↔ 2 ≤ count
        ∧ ∃ terms : List Term, terms.flatMap Term.listing = formula ∧ terms.length = count := by
  constructor
  · intro refused
    rcases formula.lists_or_underflows with ⟨terms, rfl⟩ | ⟨found, checked⟩
    · rw [validate_flatMap_listing] at refused
      split at refused
      · rename_i several
        cases refused
        exact ⟨several, terms, rfl, rfl⟩
      · cases refused
    · cases refused.symm.trans checked
  · rintro ⟨several, terms, rfl, rfl⟩
    rw [validate_flatMap_listing]
    exact if_pos several

/-- What a check says of a formula. It accepts the listing of one term and the empty formula. It
meets an underflow if the formula lists no terms, after the longest part that does. It reports
leftovers if the formula lists several terms, and counts them. No formula lists terms in two ways.
-/
structure CheckedByTerms (formula : Formula) : Prop where
  accepts : formula.validate = .ok () ↔ formula = [] ∨ ∃! term : Term, term.listing = formula
  underflows
    : (∃ found, formula.validate = .error (.underflow found))
      ↔ ∀ terms : List Term, terms.flatMap Term.listing ≠ formula
  position
    : ∀ found,
        formula.validate = .error (.underflow found)
        → formula[found.position]? = some found.instruction
          ∧ IsGreatest formula.listedLengths found.position
  leftover
    : ∀ count,
        formula.validate = .error (.leftover count)
        ↔ 2 ≤ count
          ∧ ∃ terms : List Term, terms.flatMap Term.listing = formula ∧ terms.length = count
  unique
    : ∀ first second : List Term,
        first.flatMap Term.listing = formula → second.flatMap Term.listing = formula
        → first = second

/-- A check accepts exactly the listings of terms, and its reports are exact. -/
theorem validate_exact (formula : Formula) : formula.CheckedByTerms where
  accepts := by
    rw [validate_eq_ok_iff]
    refine or_congr_right ⟨?_, ExistsUnique.exists⟩
    rintro ⟨term, rfl⟩
    refine ⟨term, rfl, fun other same => ?_⟩
    exact List.singleton_inj.mp (Term.flatMap_listing_inj (by simpa using same))
  underflows := by
    constructor
    · rintro ⟨found, checked⟩
      exact flatMap_listing_ne checked
    · intro nothing
      rcases formula.lists_or_underflows with ⟨terms, lists⟩ | underflows
      · exact absurd lists (nothing terms)
      · exact underflows
  position found checked := by
    have underflows := (validate_eq_underflow_iff Term.combine).mp checked
    exact ⟨underflows.1, underflows.isGreatest⟩
  leftover _ := validate_eq_leftover_iff
  unique first second lists again := Term.flatMap_listing_inj (lists.trans again.symm)

end Formula

end StepPlan
