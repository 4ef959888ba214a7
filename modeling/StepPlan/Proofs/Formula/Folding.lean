import StepPlan.Proofs.Formula.Pieces

/-! Folding keeps values. While pieces of code are stacked, each piece leaves the value that an
ordinary run has in its place, on any stack. A folded piece is the literal of that value, and any
other piece runs its operands and then its instruction.
-/

namespace StepPlan

/-- (Formula.Standard combine) means that literals and builtins have their own values, whatever
the other instructions mean.
-/
structure Formula.Standard (combine : Instruction → List Binary64 → Binary64) : Prop where
  number : ∀ value operands, combine (.number value) operands = value
  builtin
    : ∀ instruction operands value,
      instruction.evaluate? operands = some value → combine instruction operands = value

/-- In every environment literals and builtins have their own values. -/
theorem Environment.standard (environment : Environment)
    : Formula.Standard environment.combine where
  number _ _ := rfl
  builtin instruction operands value found := by
    cases instruction with
    | operator op => exact congrArg (Option.getD · .nan) found
    | elementary fn => exact congrArg (Option.getD · .nan) found
    | _ => nomatch found

namespace Piece

variable {meaning : Instruction → List Binary64 → Binary64}

/-- (piece.Yields meaning value) means that the code of a piece puts the value on any stack. -/
def Yields (meaning : Instruction → List Binary64 → Binary64) (piece : Piece) (value : Binary64)
    : Prop :=
  ∀ stack, piece.code.Leaves meaning stack (value :: stack)

/-- The code of a literal yields the literal and nothing else. -/
theorem yields_literal_iff (standard : Formula.Standard meaning) {piece : Piece}
    {literal value : Binary64} (code : piece.code = [.number literal])
    : piece.Yields meaning value ↔ value = literal := by
  simp only [Yields, code, Formula.leaves_cons, Formula.leaves_nil, standard.number,
    Instruction.pops]
  simp [eq_comm]

/-- Pieces put their values on the stack one after the other. -/
theorem leaves_flatMap {pieces : List Piece} {values : List Binary64}
    (yields : List.Forall₂ (Yields meaning) pieces values) (stack : List Binary64)
    : Formula.Leaves meaning stack (pieces.flatMap Piece.code) (values.reverse ++ stack) := by
  rw [List.flatMap_def]
  exact Formula.leaves_flatten (List.forall₂_map_left_iff.mpr yields) stack

/-- The literals of pieces are the values that the pieces yield. -/
theorem values_eq_literals (standard : Formula.Standard meaning) {pieces : List Piece}
    {values literals : List Binary64} (yields : List.Forall₂ (Yields meaning) pieces values)
    (found : (pieces.mapM fun piece : Piece => piece.code.literal?) = some literals)
    : values = literals := by
  induction yields generalizing literals with
  | nil => simpa using found
  | cons head _ ih =>
      obtain ⟨literal, first, rest, later, rfl⟩ := by
        simpa [List.mapM_cons, Option.bind_eq_some_iff] using found
      rw [ih later, (yields_literal_iff standard (Formula.eq_of_literal? first)).mp head]

/-- The piece that an instruction makes yields the value of the instruction. -/
theorem yields_combine (standard : Formula.Standard meaning) {instruction : Instruction}
    {pieces : List Piece} {values : List Binary64} (arity : values.length = instruction.pops)
    (yields : List.Forall₂ (Yields meaning) pieces values)
    : (combine instruction pieces).Yields meaning (meaning instruction values) := by
  unfold combine
  split
  · rename_i value folded
    obtain ⟨literals, found, evaluated⟩ := Option.bind_eq_some_iff.mp folded
    rw [← values_eq_literals standard yields found] at evaluated
    refine (yields_literal_iff standard rfl).mpr ?_
    exact standard.builtin _ _ _ (Option.filter_eq_some_iff.mp evaluated).1
  · intro stack
    refine Formula.leaves_append.mpr ⟨_, leaves_flatMap yields stack, ?_⟩
    rw [Formula.leaves_cons_of_operands arity]
    exact Formula.leaves_nil.mpr rfl

end Piece

namespace Formula

/-- Folding that succeeds collects the code of the pieces that a run leaves, and tells whether one
of them was folded.
-/
theorem fold_eq_ok_iff {formula folded : Formula} {changed : Bool}
    : formula.fold = .ok (folded, changed)
      ↔ ∃ pieces,
          formula.Leaves Piece.combine [] pieces
          ∧ folded = pieces.reverse.flatMap Piece.code
          ∧ changed = pieces.any Piece.folded := by
  change _ ↔ ∃ pieces, formula.run Piece.combine = .ok pieces ∧ _
  cases ran : formula.run Piece.combine with
  | error found => simp [fold_of_underflow ran]
  | ok pieces => simp [fold_of_run ran, eq_comm]

/-- A folded formula leaves what the formula leaves, value for value. -/
theorem leaves_of_fold {meaning : Instruction → List Binary64 → Binary64}
    (standard : Standard meaning) {formula folded : Formula} {changed : Bool}
    (done : formula.fold = .ok (folded, changed))
    : ∃ result, formula.Leaves meaning [] result ∧ folded.Leaves meaning [] result := by
  obtain ⟨pieces, ran, rfl, -⟩ := fold_eq_ok_iff.mp done
  obtain ⟨result, run, yields⟩ := ran.relate
    (fun _ _ _ _ arity operands => Piece.yields_combine standard arity operands) .nil
  refine ⟨result, run, ?_⟩
  simpa using Piece.leaves_flatMap (List.rel_reverse yields) []

/-- A folded formula is made of instructions of the formula and of literals. -/
theorem origin_of_fold {formula folded : Formula} {changed : Bool}
    (done : formula.fold = .ok (folded, changed)) {origin : Instruction → Prop}
    (literals : ∀ value, origin (.number value))
    (start : ∀ instruction ∈ formula, origin instruction)
    : ∀ instruction ∈ folded, origin instruction := by
  obtain ⟨pieces, ran, rfl, -⟩ := fold_eq_ok_iff.mp done
  have kept : ∀ piece ∈ pieces, ∀ instruction ∈ piece.code, origin instruction := by
    refine ran.invariant ?_ nofun
    intro instruction member operands _ known
    unfold Piece.combine
    split
    · simpa using literals _
    · refine List.forall_mem_append.mpr ⟨?_, by simpa using start instruction member⟩
      intro inner inside
      obtain ⟨piece, pieceMember, inside⟩ := List.mem_flatMap.mp inside
      exact known piece pieceMember inner inside
  intro instruction member
  obtain ⟨piece, pieceMember, inside⟩ := List.mem_flatMap.mp member
  exact kept piece (List.mem_reverse.mp pieceMember) instruction inside

end Formula

end StepPlan
