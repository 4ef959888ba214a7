import Mathlib.Data.Set.List
import StepPlan.Proofs.Formula.Terms

/-! Sums of formulas. The sum of parts that each list a term lists the terms added up from left to
right, so it is well formed and has the value that it should have. Every part after the first is
followed by an addition, whether it has a value or not. So a part without a value leaves one of the
additions short of an operand, unless it is the only part.
-/

namespace StepPlan

/-- The sum of two doubles. -/
def Binary64.plus (x y : Binary64) : Binary64 :=
  .ofFloat (x.toFloat + y.toFloat)

namespace Term

/-- The addition of two terms. -/
def add (first second : Term) : Term :=
  combine (.operator .add) [first, second]

theorem listing_add (first second : Term)
    : (first.add second).listing = first.listing ++ second.listing ++ [.operator .add] := by
  rw [add, listing_combine rfl]
  simp

/-- In every standard meaning an addition has the sum of the values. -/
theorem value_add {meaning : Instruction → List Binary64 → Binary64}
    (standard : Formula.Standard meaning) (first second : Term)
    : (first.add second).value meaning = (first.value meaning).plus (second.value meaning) := by
  rw [add, value_combine meaning rfl]
  exact standard.builtin _ _ _ rfl

/-- Listings followed by additions list the terms added up from left to right, by induction on the
terms after the first.
-/
theorem listing_foldl_add (first : Term) (rest : List Term)
    : (rest.foldl add first).listing = Formula.sum ((first :: rest).map listing) := by
  induction rest generalizing first with
  | nil => simp [Formula.sum, Formula.sumRest]
  | cons second rest ih =>
      rw [List.foldl_cons, ih]
      simp [Formula.sum, Formula.sumRest, listing_add]

theorem value_foldl_add {meaning : Instruction → List Binary64 → Binary64}
    (standard : Formula.Standard meaning) (first : Term) (rest : List Term)
    : (rest.foldl add first).value meaning
      = (rest.map (value meaning)).foldl .plus (first.value meaning) := by
  induction rest generalizing first with
  | nil => rfl
  | cons second rest ih =>
      rw [List.foldl_cons, ih, value_add standard, List.map_cons, List.foldl_cons]

end Term

namespace Formula

variable {parts : List Formula}

/-- A formula yields a value if a run leaves this value and nothing else. -/
def Yields (meaning : Instruction → List Binary64 → Binary64) (formula : Formula)
    (value : Binary64)
    : Prop :=
  formula.run meaning = .ok [value]

/-- What is expected of a sum: it is well formed, and if not all parts are empty, it yields the sum
of the values of the other parts, from left to right.
-/
structure SumsUp (parts : List Formula) : Prop where
  valid : (sum parts).validate = .ok ()
  value
    : (∃ part ∈ parts, part ≠ [])
      → ∀ meaning,
          Standard meaning
          → ∃ first rest,
              List.Forall₂ (Yields meaning) (parts.filter fun part => part ≠ []) (first :: rest)
              ∧ (sum parts).Yields meaning (rest.foldl .plus first)

/-- Well-formed parts that are not empty list terms. -/
theorem exists_map_listing (valid : ∀ part ∈ parts, part.validate = .ok ()) (full : [] ∉ parts)
    : ∃ terms : List Term, terms.map Term.listing = parts := by
  have each : parts ∈ Set.range (List.map Term.listing) := by
    rw [Set.range_list_map]
    intro part member
    rcases validate_eq_ok_iff.mp (valid part member) with rfl | lists
    · exact absurd member full
    · exact lists
  exact each

/-- Parts that list terms sum up. -/
theorem sumsUp_map_listing (first : Term) (rest : List Term)
    : SumsUp ((first :: rest).map Term.listing) where
  valid := by
    rw [← Term.listing_foldl_add]
    exact validate_eq_ok_iff.mpr (Or.inr ⟨_, rfl⟩)
  value := by
    intro _ meaning standard
    have full : ((first :: rest).map Term.listing).filter (fun part => part ≠ [])
        = (first :: rest).map Term.listing := by
      rw [List.filter_eq_self]
      intro part member
      obtain ⟨term, _, rfl⟩ := List.mem_map.mp member
      exact decide_eq_true term.listing_ne_nil
    refine ⟨first.value meaning, rest.map (Term.value meaning), ?_, ?_⟩
    · rw [full, ← List.map_cons, List.forall₂_map_left_iff, List.forall₂_map_right_iff,
        List.forall₂_same]
      exact fun term _ => term.leaves_listing meaning []
    · rw [← Term.listing_foldl_add, ← Term.value_foldl_add standard]
      exact Term.leaves_listing meaning _ []

theorem sumsUp_of_full (valid : ∀ part ∈ parts, part.validate = .ok ()) (full : [] ∉ parts)
    : SumsUp parts := by
  obtain ⟨terms, rfl⟩ := exists_map_listing valid full
  cases terms with
  | nil => exact ⟨rfl, by simp⟩
  | cons first rest => exact sumsUp_map_listing first rest

/-- A single part is its own sum, and if it is empty there is nothing to yield. -/
theorem sumsUp_of_single (valid : ∀ part ∈ parts, part.validate = .ok ())
    (single : parts.length ≤ 1)
    : SumsUp parts := by
  by_cases empty : [] ∈ parts
  · obtain ⟨part, rfl⟩ := List.length_eq_one_iff.mp
      (Nat.le_antisymm single (List.length_pos_of_mem empty))
    obtain rfl := List.mem_singleton.mp empty
    exact ⟨rfl, by simp⟩
  · exact sumsUp_of_full valid empty

-----------------------------------------------------------------------------------------
-- Empty parts
-----------------------------------------------------------------------------------------

/-- A formula that is accepted leaves one value at most. -/
theorem exists_leaves_of_validate {part : Formula} (valid : part.validate = .ok ())
    : ∃ stack : List Unit, part.Leaves (fun _ _ => ()) [] stack ∧ stack.length ≤ 1 := by
  rcases validate_eq_ok_iff.mp valid with rfl | ⟨term, rfl⟩
  · exact ⟨[], leaves_nil.mpr rfl, Nat.zero_le 1⟩
  · exact ⟨_, term.leaves_listing _ [], Nat.le_refl 1⟩

/-- An addition that follows an accepted formula at once lacks an operand. -/
theorem validate_of_short_addition {before : Formula} (valid : before.validate = .ok ())
    (after : Formula)
    : (before ++ .operator .add :: after).validate
      = .error (.underflow ⟨before.length, .operator .add⟩) := by
  obtain ⟨stack, run, few⟩ := exists_leaves_of_validate valid
  refine (validate_eq_underflow_iff fun _ _ => ()).mpr ⟨by simp, stack, ?_, ?_⟩
  · simpa using run
  · exact Nat.lt_succ_of_le few

theorem sumRest_append (early late : List Formula)
    : sumRest (early ++ late) = sumRest early ++ sumRest late := by
  induction early with
  | nil => rfl
  | cons part rest ih => simp [sumRest, ih]

/-- With an empty part among several, the sum is an accepted formula followed by an addition: the
empty part and the one after it if the empty part comes first, or else the sum of the parts before.
-/
theorem exists_short_addition (valid : ∀ part ∈ parts, part.validate = .ok ())
    (several : 2 ≤ parts.length) (empty : [] ∈ parts)
    : ∃ before after : Formula,
        before.validate = .ok () ∧ sum parts = before ++ .operator .add :: after := by
  obtain ⟨early, late, rfl, full⟩ := List.eq_append_cons_of_mem empty
  cases early with
  | nil =>
      cases late with
      | nil => simp at several
      | cons second rest => exact ⟨second, sumRest rest, valid second (by simp), rfl⟩
  | cons first rest =>
      have summed := sumsUp_of_full
        (fun part member => valid part (List.mem_append_left _ member)) full
      refine ⟨sum (first :: rest), sumRest late, summed.valid, ?_⟩
      simp [sum, sumRest, sumRest_append]

/-- The sum of well-formed parts is what it should be if there is a single part or no part is empty.
Otherwise one of the additions lacks an operand, so the sum is not even well formed.
-/
theorem sum_exact (valid : ∀ part ∈ parts, part.validate = .ok ())
    : (SumsUp parts ↔ parts.length ≤ 1 ∨ [] ∉ parts)
      ∧ (2 ≤ parts.length
        → [] ∈ parts
        → ∃ position,
            (sum parts).validate = .error (.underflow ⟨position, .operator .add⟩)) := by
  have fails : 2 ≤ parts.length → [] ∈ parts
      → ∃ position, (sum parts).validate = .error (.underflow ⟨position, .operator .add⟩) := by
    intro several empty
    obtain ⟨before, after, accepted, split⟩ := exists_short_addition valid several empty
    exact ⟨before.length, split ▸ validate_of_short_addition accepted after⟩
  refine ⟨⟨?_, ?_⟩, fails⟩
  · intro sums
    by_contra other
    rw [not_or, Nat.not_le, not_not] at other
    obtain ⟨position, failed⟩ := fails other.1 other.2
    cases sums.valid.symm.trans failed
  · rintro (single | full)
    · exact sumsUp_of_single valid single
    · exact sumsUp_of_full valid full

/-- `x + y * z` and then `1`. -/
def fullParts : List Formula :=
  [[.var (.ofIndex 0), .var (.ofIndex 1), .var (.ofIndex 2), .operator .multiply, .operator .add],
    [.number ⟨0x3ff0000000000000⟩]]

theorem validate_fullParts : ∀ part ∈ fullParts, part.validate = .ok () :=
  List.forall_mem_cons.mpr ⟨rfl, List.forall_mem_singleton.mpr rfl⟩

theorem sum_exact_fullParts
    : (∀ part ∈ fullParts, part.validate = .ok ()) ∧ SumsUp fullParts :=
  ⟨validate_fullParts, (sum_exact validate_fullParts).1.mpr (Or.inr (by decide))⟩

/-- `1`, and then a part without instructions. -/
def partsWithEmpty : List Formula :=
  [[.number ⟨0x3ff0000000000000⟩], []]

/-- Both parts are well formed, but their sum is `1 +`. -/
theorem sum_partsWithEmpty
    : (∀ part ∈ partsWithEmpty, part.validate = .ok ())
      ∧ (sum partsWithEmpty).validate = .error (.underflow ⟨1, .operator .add⟩)
      ∧ ¬ SumsUp partsWithEmpty := by
  have failed : (sum partsWithEmpty).validate = .error (.underflow ⟨1, .operator .add⟩) := rfl
  refine ⟨List.forall_mem_cons.mpr ⟨rfl, List.forall_mem_singleton.mpr rfl⟩, failed, ?_⟩
  intro sums
  cases sums.valid.symm.trans failed

end Formula

end StepPlan
