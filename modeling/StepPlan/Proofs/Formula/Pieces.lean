import StepPlan.Formula.Fold
import StepPlan.Proofs.Formula.Evaluation

/-! Folding runs a formula on pieces of code. Each value on the stack has its own piece of the code
that a pass has written, and a builtin that is folded replaces the pieces of its operands by a
literal. So what a pass writes is the code of the pieces that a run leaves.
-/

namespace StepPlan

/-- Code that leaves one value, and whether some application in it was folded. -/
structure Piece where
  code : Formula
  folded : Bool
  deriving DecidableEq

namespace Piece

/-- The finite value of a builtin whose operands are all literals. -/
def fold? (instruction : Instruction) (operands : List Piece) : Option Binary64 :=
  (operands.mapM fun piece : Piece => piece.code.literal?).bind fun literals =>
    (instruction.evaluate? literals).filter Binary64.isFinite

/-- The piece that an instruction makes of its operands. -/
def combine (instruction : Instruction) (operands : List Piece) : Piece :=
  match fold? instruction operands with
  | some value => ⟨[.number value], true⟩
  | none => ⟨operands.flatMap Piece.code ++ [instruction], operands.any Piece.folded⟩

theorem fold?_eq (instruction : Instruction) (operands : List Piece)
    : instruction.fold? (operands.map fun piece => piece.code.literal?)
      = fold? instruction operands := by
  rw [Instruction.fold?, fold?, List.mapM_map]
  rfl

end Piece

theorem Formula.eq_of_literal? {formula : Formula} {value : Binary64}
    (found : formula.literal? = some value)
    : formula = [.number value] := by
  unfold literal? at found
  split at found
  · cases found
    rfl
  · nomatch found

namespace Folding

/-- (pass.Writes pieces) means that a pass has written the code of some pieces, one for each value
on the stack, and knows which of them are literals and whether one was folded.
-/
structure Writes (pass : Folding) (pieces : List Piece) : Prop where
  code : pass.code = pieces.reverse.flatMap Piece.code
  stack : pass.stack = pieces.map fun piece => piece.code.literal?
  changed : pass.changed = pieces.any Piece.folded

theorem writes_start : start.Writes [] :=
  ⟨rfl, rfl, rfl⟩

/-- Pieces that are all literals are as long as their code. -/
theorem length_flatMap_of_literals {pieces : List Piece} {literals : List Binary64}
    (read : (pieces.mapM fun piece : Piece => piece.code.literal?) = some literals)
    : (pieces.flatMap Piece.code).length = pieces.length := by
  induction pieces generalizing literals with
  | nil => rfl
  | cons piece rest ih =>
      obtain ⟨literal, found, later, readLater, -⟩ := by
        simpa [List.mapM_cons, Option.bind_eq_some_iff] using read
      rw [List.flatMap_cons, Formula.eq_of_literal? found, List.singleton_append,
        List.length_cons, List.length_cons, ih readLater]

/-- An instruction that is not folded is a literal only if it is one by itself: a literal takes no
operands.
-/
theorem literal?_concat {instruction : Instruction} {operands : List Piece}
    (arity : operands.length = instruction.pops)
    : Formula.literal? (operands.flatMap Piece.code ++ [instruction])
      = Formula.literal? [instruction] := by
  rcases single : Formula.literal? [instruction] with _ | value
  · rw [Option.eq_none_iff_forall_ne_some]
    intro value found
    have last : instruction = .number value := by
      simpa using congrArg List.getLast? (Formula.eq_of_literal? found)
    subst last
    nomatch single
  · cases Formula.eq_of_literal? single
    rw [List.eq_nil_of_length_eq_zero arity]
    exact single

/-- What a pass reads next it writes as the piece of its instruction. -/
theorem Writes.step {pass : Folding} {pieces : List Piece} (writes : pass.Writes pieces)
    {instruction : Instruction} (enough : instruction.pops ≤ pieces.length)
    : (pass.step instruction).Writes
        (Piece.combine instruction (pieces.take instruction.pops).reverse
          :: pieces.drop instruction.pops) := by
  have arity : (pieces.take instruction.pops).reverse.length = instruction.pops := by
    rw [List.length_reverse, List.length_take_of_le enough]
  have literals : (pass.stack.take instruction.pops).reverse
      = (pieces.take instruction.pops).reverse.map fun piece => piece.code.literal? := by
    rw [writes.stack, ← List.map_take, ← List.map_reverse]
  have rest : pass.stack.drop instruction.pops
      = (pieces.drop instruction.pops).map fun piece => piece.code.literal? := by
    rw [writes.stack, List.map_drop]
  have divided : pieces.reverse
      = (pieces.drop instruction.pops).reverse ++ (pieces.take instruction.pops).reverse := by
    rw [← List.reverse_append, List.take_append_drop]
  have code := writes.code
  rw [divided, List.flatMap_append] at code
  have changed := writes.changed
  rw [← List.any_reverse, divided, List.any_append, List.any_reverse, Bool.or_comm] at changed
  generalize (pieces.take instruction.pops).reverse = operands at *
  unfold Folding.step
  dsimp only
  rw [literals, Piece.fold?_eq, rest]
  unfold Piece.combine
  cases found : Piece.fold? instruction operands with
  | some value =>
      -- The operands are literals, so their code is cut off by their number.
      obtain ⟨_, read, _⟩ := Option.bind_eq_some_iff.mp found
      have length := (length_flatMap_of_literals read).trans arity
      refine ⟨?_, rfl, rfl⟩
      dsimp only
      rw [code, List.length_append, length, Nat.add_sub_cancel, List.take_left, List.reverse_cons,
        List.flatMap_append, List.flatMap_singleton]
  | none =>
      refine ⟨?_, ?_, ?_⟩
      · dsimp only
        rw [code, List.reverse_cons, List.flatMap_append, List.flatMap_singleton,
          List.append_assoc]
      · dsimp only
        rw [List.map_cons, literal?_concat arity]
      · exact changed

/-- A pass fails where a run fails, and it writes what the run leaves, by induction on what is still
to be read.
-/
theorem Writes.readFrom {pass : Folding} {pieces : List Piece} (writes : pass.Writes pieces)
    (position : Nat) (formula : Formula)
    : (∀ found,
        formula.runFrom Piece.combine position pieces = .error found
        → Folding.readFrom position pass formula = .error (.foldUnderflow found.position))
      ∧ ∀ result,
          formula.runFrom Piece.combine position pieces = .ok result
          → ∃ last, Folding.readFrom position pass formula = .ok last ∧ last.Writes result := by
  induction formula generalizing position pass pieces with
  | nil =>
      refine ⟨by simp [Formula.runFrom], ?_⟩
      intro result ran
      cases ran
      exact ⟨pass, rfl, writes⟩
  | cons instruction rest ih =>
      have height : pass.stack.length = pieces.length := by rw [writes.stack, List.length_map]
      rw [Folding.readFrom, Formula.runFrom, height]
      split
      · refine ⟨?_, by simp⟩
        intro found short
        cases short
        rfl
      · rename_i enough
        exact ih (writes.step (Nat.le_of_not_lt enough)) (position + 1)

end Folding

namespace Formula

variable {formula : Formula}

/-- Folding writes the code of the pieces that a run leaves. -/
theorem fold_of_run {pieces : List Piece} (ran : formula.run Piece.combine = .ok pieces)
    : formula.fold = .ok (pieces.reverse.flatMap Piece.code, pieces.any Piece.folded) := by
  obtain ⟨last, done, writes⟩ := (Folding.writes_start.readFrom 0 formula).2 pieces ran
  rw [fold, done, ← writes.code, ← writes.changed]

/-- Folding fails where a run fails. -/
theorem fold_of_underflow {found : Underflow} (ran : formula.run Piece.combine = .error found)
    : formula.fold = .error (.foldUnderflow found.position) := by
  rw [fold, (Folding.writes_start.readFrom 0 formula).1 found ran]

end Formula

end StepPlan
