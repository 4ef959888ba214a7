import StepPlan.Proofs.Formula.Folding
import StepPlan.Total

/-! Folding that changes a formula makes it lighter. Every instruction has a weight, the same for
all literals, and a run on pieces of code never stacks more weight than it has read. An application
that is folded leaves the weight of one literal in place of its operands and itself, so from then
on there is less. Hence a folded formula is shorter, and so is the text of its shape.
-/

namespace StepPlan

variable {α β : Type}

/-- The total over parts in a row is the total of their totals, by induction on the items. -/
theorem total_flatMap (weight : β → Nat) (parts : α → List β) (items : List α)
    : total weight (items.flatMap parts) = total (fun item => total weight (parts item)) items := by
  induction items with
  | nil => rfl
  | cons item rest ih => rw [List.flatMap_cons, total_append, ih, total]

theorem total_reverse (weight : α → Nat) (items : List α)
    : total weight items.reverse = total weight items := by
  induction items with
  | nil => rfl
  | cons item rest ih =>
      rw [List.reverse_cons, total_append, ih]
      simp [total, Nat.add_comm]

/-- A weight that no instruction lacks and that all literals share. -/
structure Instruction.IsWeight (weight : Instruction → Nat) : Prop where
  positive : ∀ instruction, 0 < weight instruction
  literal : ∀ first second, weight (.number first) = weight (.number second)

variable {weight : Instruction → Nat}

namespace Piece

/-- The weight of all code on a stack. -/
def load (weight : Instruction → Nat) (stack : List Piece) : Nat :=
  total (fun piece => total weight piece.code) stack

/-- Stacked code keeps to what was read, and falls short of it once something was folded. -/
structure Within (weight : Instruction → Nat) (stack : List Piece) (read : Nat) : Prop where
  le : load weight stack ≤ read
  lt : stack.any Piece.folded = true → load weight stack < read

/-- An application that is folded has an operand, and its operands are literals. -/
theorem exists_literal_of_fold? {instruction : Instruction} {operands : List Piece}
    {value : Binary64} (folded : fold? instruction operands = some value)
    : ∃ first rest literal, operands = first :: rest ∧ first.code = [.number literal] := by
  obtain ⟨literals, found, evaluated⟩ := Option.bind_eq_some_iff.mp folded
  cases operands with
  | nil =>
      cases found
      cases instruction with
      | operator op => cases op <;> cases evaluated
      | _ => cases evaluated
  | cons first rest =>
      obtain ⟨literal, found, _⟩ := by
        simpa [List.mapM_cons, Option.bind_eq_some_iff] using found
      exact ⟨first, rest, literal, rfl, Formula.eq_of_literal? found⟩

/-- One instruction adds its weight at most, and less if it is folded. -/
theorem Within.combine (isWeight : Instruction.IsWeight weight) {stack : List Piece} {read : Nat}
    (within : Within weight stack read) (instruction : Instruction)
    : Within weight
        (Piece.combine instruction (stack.take instruction.pops).reverse
          :: stack.drop instruction.pops)
        (read + weight instruction) := by
  obtain ⟨le, lt⟩ := within
  have positive := isWeight.positive instruction
  rw [← List.take_append_drop instruction.pops stack] at le lt
  rw [List.any_append] at lt
  simp only [load, total_append] at le lt
  generalize stack.drop instruction.pops = below at *
  rw [← total_reverse _ (stack.take instruction.pops)] at le lt
  rw [← List.any_reverse] at lt
  generalize (stack.take instruction.pops).reverse = operands at *
  unfold Piece.combine
  split
  · rename_i value folded
    obtain ⟨first, rest, literal, rfl, code⟩ := exists_literal_of_fold? folded
    have same := isWeight.literal value literal
    simp only [total, code] at le
    constructor
    · simp only [load, total]
      omega
    · intro _
      simp only [load, total]
      omega
  · constructor
    · simp only [load, total, total_append, total_flatMap]
      omega
    · intro changed
      have less := lt (by simpa using changed)
      simp only [load, total, total_append, total_flatMap]
      omega

/-- A whole run keeps to what was read, by induction on the formula. -/
theorem Within.run (isWeight : Instruction.IsWeight weight) {stack result : List Piece}
    {formula : Formula} {read : Nat} (within : Within weight stack read)
    (ran : formula.Leaves Piece.combine stack result)
    : Within weight result (read + total weight formula) := by
  induction formula generalizing stack read with
  | nil =>
      obtain rfl := Formula.leaves_nil.mp ran
      exact within
  | cons instruction rest ih =>
      have later := ih (within.combine isWeight instruction) (Formula.leaves_cons.mp ran).2
      rw [Nat.add_assoc] at later
      exact later

end Piece

namespace Formula

/-- Folding that changes a formula makes it lighter. -/
theorem total_lt_of_fold (isWeight : Instruction.IsWeight weight) {formula folded : Formula}
    (done : formula.fold = .ok (folded, true))
    : total weight folded < total weight formula := by
  obtain ⟨pieces, ran, rfl, changed⟩ := fold_eq_ok_iff.mp done
  have empty : Piece.Within weight [] 0 := ⟨Nat.le_refl 0, nofun⟩
  have less := (empty.run isWeight ran).lt changed.symm
  rw [Nat.zero_add, Piece.load, ← total_reverse, ← total_flatMap] at less
  exact less

theorem length_lt_of_fold {formula folded : Formula} (done : formula.fold = .ok (folded, true))
    : folded.length < formula.length := by
  have count : ∀ items : Formula, total (fun _ => 1) items = items.length := by
    intro items
    induction items with
    | nil => rfl
    | cons item rest ih => rw [total, ih, List.length_cons, Nat.add_comm]
  have less := total_lt_of_fold ⟨fun _ => Nat.one_pos, fun _ _ => rfl⟩ done
  rwa [count, count] at less

/-- The shape of a formula has the marks of its instructions with a blank after each but the last.
-/
theorem length_shape {formula : Formula} (nonempty : formula ≠ [])
    : formula.shape.length + 1
      = total (fun instruction => instruction.mark.length + 1) formula := by
  induction formula with
  | nil => exact absurd rfl nonempty
  | cons instruction rest ih =>
      cases rest with
      | nil => simp [shape, total]
      | cons second rest =>
          have later := ih (List.cons_ne_nil _ _)
          simp only [shape, List.map_cons, String.intercalate_cons_cons, String.length_append]
            at later ⊢
          rw [total, ← later]
          have blank : " ".length = 1 := rfl
          omega

/-- The shape of a formula that folding changed is longer than the shape of the result. -/
theorem shape_ne_of_fold {formula folded : Formula} (done : formula.fold = .ok (folded, true))
    (nonempty : folded ≠ [])
    : formula.shape ≠ folded.shape := by
  intro same
  have original : formula ≠ [] := List.ne_nil_of_length_pos
    (Nat.zero_lt_of_lt (length_lt_of_fold done))
  have isWeight : Instruction.IsWeight fun instruction => instruction.mark.length + 1 :=
    ⟨fun _ => Nat.succ_pos _, fun _ _ => rfl⟩
  have less := total_lt_of_fold isWeight done
  rw [← length_shape nonempty, ← length_shape original, same] at less
  exact Nat.lt_irrefl _ less

end Formula

end StepPlan
