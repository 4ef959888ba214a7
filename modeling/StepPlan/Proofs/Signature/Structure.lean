import Mathlib
import StepPlan.Proofs.Signature

/-! What signatures tell apart. Signatures of one table are equal exactly when the formulas agree,
position by position, in their heads: both have an operand there, the same builtin, the same custom
function or the same routine. How many values a custom function or a routine takes is no part of its
head. So formulas of equal signature have the same structure only if they also agree in that.
-/

namespace StepPlan

namespace Instruction

/-- Two instructions differ at most as operands. -/
inductive SameStructure : Instruction → Instruction → Prop
  | operands {first second : Instruction} (one : first.isOperand = true)
    (other : second.isOperand = true)
    : SameStructure first second
  | same {instruction : Instruction} (plain : instruction.isOperand = false)
    : SameStructure instruction instruction

/-- Two instructions differ at most as operands or in how many values they take. -/
inductive SameHead : Instruction → Instruction → Prop
  | operands {first second : Instruction} (one : first.isOperand = true)
    (other : second.isOperand = true)
    : SameHead first second
  | operator (op : Operator) : SameHead (.operator op) (.operator op)
  | elementary (fn : Elementary) : SameHead (.elementary fn) (.elementary fn)
  | customFunction (name : String) (arity other : UInt16)
    : SameHead (.customFunction name arity) (.customFunction name other)
  | routine (cluster : ClusterId) (arity other : UInt16)
    : SameHead (.routine cluster arity) (.routine cluster other)

/-- Having the same head is a matter of heads, for instructions that have one. -/
theorem sameHead_iff {first second : Instruction} (headed : first.head? ≠ none)
    : SameHead first second ↔ first.head? = second.head? := by
  constructor
  · intro same
    cases same with
    | operands one other => rw [head?_eq_operand_iff.mpr one, head?_eq_operand_iff.mpr other]
    | _ => rfl
  · intro same
    obtain ⟨head, found⟩ := Option.ne_none_iff_exists'.mp headed
    have otherFound := same.symm.trans found
    cases head with
    | operand =>
        exact .operands (head?_eq_operand_iff.mp found) (head?_eq_operand_iff.mp otherFound)
    | operator op =>
        rw [head?_eq_operator_iff.mp found, head?_eq_operator_iff.mp otherFound]
        exact .operator op
    | elementary fn =>
        rw [head?_eq_elementary_iff.mp found, head?_eq_elementary_iff.mp otherFound]
        exact .elementary fn
    | label label =>
        cases label with
        | function name =>
            obtain ⟨arity, rfl⟩ := head?_eq_function_iff.mp found
            obtain ⟨other, rfl⟩ := head?_eq_function_iff.mp otherFound
            exact .customFunction name arity other
        | routine cluster =>
            obtain ⟨arity, rfl⟩ := head?_eq_routine_iff.mp found
            obtain ⟨other, rfl⟩ := head?_eq_routine_iff.mp otherFound
            exact .routine cluster arity other

/-- The structure of an instruction that has a head is the head and how many values it takes. -/
theorem sameStructure_iff {first second : Instruction} (headed : first.head? ≠ none)
    : SameStructure first second ↔ SameHead first second ∧ first.pops = second.pops := by
  constructor
  · intro same
    cases same with
    | operands one other =>
        exact ⟨.operands one other, (pops_of_isOperand one).trans (pops_of_isOperand other).symm⟩
    | same => exact ⟨(sameHead_iff headed).mpr rfl, rfl⟩
  · rintro ⟨same, count⟩
    cases same with
    | operands one other => exact .operands one other
    | operator op => exact .same rfl
    | elementary fn => exact .same rfl
    | customFunction name arity other =>
        cases UInt16.toNat_inj.mp count
        exact .same rfl
    | routine cluster arity other =>
        cases UInt16.toNat_inj.mp count
        exact .same rfl

end Instruction

namespace Formula

variable {first second : Formula}

/-- Formulas agree in their heads position by position, by induction on the first. -/
theorem heads_eq_iff (headed : ∀ instruction ∈ first, instruction.head? ≠ none)
    : first.heads = second.heads ↔ List.Forall₂ Instruction.SameHead first second := by
  induction first generalizing second with
  | nil => cases second <;> simp [heads]
  | cons instruction rest ih =>
      cases second with
      | nil => simp [heads]
      | cons other others =>
          obtain ⟨here, later⟩ := List.forall_mem_cons.mp headed
          have restIff := @ih others later
          simp only [heads] at restIff
          simp only [heads, List.map_cons, List.cons.injEq, List.forall₂_cons, restIff,
            Instruction.sameHead_iff here]

/-- Formulas have the same structure if they agree in their heads and in how many values are taken
at each position, by induction on the first.
-/
theorem sameStructure_iff (headed : ∀ instruction ∈ first, instruction.head? ≠ none)
    : List.Forall₂ Instruction.SameStructure first second
      ↔ List.Forall₂ Instruction.SameHead first second
        ∧ first.map Instruction.pops = second.map Instruction.pops := by
  induction first generalizing second with
  | nil => cases second <;> simp
  | cons instruction rest ih =>
      cases second with
      | nil => simp
      | cons other others =>
          obtain ⟨here, later⟩ := List.forall_mem_cons.mp headed
          simp only [List.forall₂_cons, List.map_cons, List.cons.injEq, @ih others later,
            Instruction.sameStructure_iff here]
          tauto

/-- No custom function and no routine takes different numbers of values in two formulas. -/
def AgreeInArity (first second : Formula) : Prop :=
  ∀ instruction ∈ first, ∀ other ∈ second,
    Instruction.SameHead instruction other → instruction.pops = other.pops

theorem AgreeInArity.map_pops (agree : AgreeInArity first second)
    (same : List.Forall₂ Instruction.SameHead first second)
    : first.map Instruction.pops = second.map Instruction.pops := by
  induction same with
  | nil => rfl
  | cons here _ ih =>
      rw [List.map_cons, List.map_cons, agree _ List.mem_cons_self _ List.mem_cons_self here]
      congr 1
      apply ih
      intro instruction member other otherMember
      exact agree instruction (List.mem_cons_of_mem _ member) other
        (List.mem_cons_of_mem _ otherMember)

end Formula

namespace CodeTable

-----------------------------------------------------------------------------------------
-- Requests between two signatures
-----------------------------------------------------------------------------------------

/-- What may be asked of a table besides starting over. -/
inductive Request where
  | code (instruction : Instruction)
  | sign (formula : Formula)

/-- The table after a request, whether it fails or not. -/
def serve (table : CodeTable) : Request → CodeTable
  | .code instruction => (table.code instruction).2
  | .sign formula => (table.sign formula).2

/-- The table after requests in a row. -/
def serveAll (table : CodeTable) (requests : List Request) : CodeTable :=
  requests.foldl serve table

theorem labels_code (table : CodeTable) (instruction : Instruction)
    : table.labels <+: (table.code instruction).2.labels := by
  cases instruction with
  | customFunction name arity => exact (table.allocate_spec _).1
  | routine cluster arity => exact (table.allocate_spec _).1
  | customOperator id name access => cases access <;> exact List.prefix_rfl
  | _ => exact List.prefix_rfl

/-- Signing takes no label away, even if it fails, by induction on the formula. -/
theorem labels_sign (table : CodeTable) (formula : Formula)
    : table.labels <+: (table.sign formula).2.labels := by
  induction formula generalizing table with
  | nil => exact List.prefix_rfl
  | cons instruction rest ih =>
      have first := table.labels_code instruction
      unfold sign
      split <;> rename_i coded
      · rw [coded] at first
        exact first
      · rename_i next
        rw [coded] at first
        have later := first.trans (ih next)
        split <;> rename_i signed
        · rw [signed] at later
          exact later
        · rw [signed] at later
          exact later

/-- Requests take no label away, by induction on them. -/
theorem labels_serveAll (table : CodeTable) (requests : List Request)
    : table.labels <+: (table.serveAll requests).labels := by
  induction requests generalizing table with
  | nil => exact List.prefix_rfl
  | cons request rest ih =>
      refine List.IsPrefix.trans ?_ (ih (table.serve request))
      cases request with
      | code instruction => exact table.labels_code instruction
      | sign formula => exact table.labels_sign formula

-----------------------------------------------------------------------------------------
-- Equal signatures
-----------------------------------------------------------------------------------------

/-- Of two formulas signed by one table, at any time before the next start, the signatures are equal
exactly when the formulas agree in their heads. They have the same structure exactly when they also
agree in how many values are taken at each position. So where custom functions and routines are used
with one arity each, equal signatures and the same structure are the same, and equal signatures
imply that the same number of values is taken at each position.
-/
theorem signatures_eq_iff {before between : List Request} {first second : Formula}
    {one other : Signature} {after last : CodeTable}
    (signed : (empty.serveAll before).sign first = (.ok one, after))
    (signedLater : (after.serveAll between).sign second = (.ok other, last))
    : (one = other ↔ List.Forall₂ Instruction.SameHead first second)
      ∧ (List.Forall₂ Instruction.SameStructure first second
        ↔ one = other ∧ first.map Instruction.pops = second.map Instruction.pops)
      ∧ (Formula.AgreeInArity first second
        → (one = other ↔ List.Forall₂ Instruction.SameStructure first second)
          ∧ (one = other → first.map Instruction.pops = second.map Instruction.pops)) := by
  obtain ⟨_, signs⟩ := sign_eq_ok signed
  obtain ⟨grown, otherSigns⟩ := sign_eq_ok signedLater
  have moved := signs.mono ((after.labels_serveAll between).trans grown)
  have headed : ∀ instruction ∈ first, instruction.head? ≠ none := by
    intro instruction member missing
    obtain ⟨head, found⟩ := moved.exists_head member
    cases missing.symm.trans found
  have heads : one = other ↔ List.Forall₂ Instruction.SameHead first second :=
    (moved.heads_eq_iff otherSigns).symm.trans (Formula.heads_eq_iff headed)
  have structures := @Formula.sameStructure_iff first second headed
  rw [← heads] at structures
  refine ⟨heads, structures, fun agree => ?_⟩
  have counts : one = other → first.map Instruction.pops = second.map Instruction.pops :=
    fun same => agree.map_pops (heads.mp same)
  exact ⟨⟨fun same => structures.mpr ⟨same, counts same⟩, fun same => (structures.mp same).1⟩,
    counts⟩

/-- A scaled sum, signed before and after a request that fails halfway. The operands differ, and a
code was handed out in between.
-/
theorem signatures_eq_iff_scaled
    : let scaled (operand : Instruction) : Formula :=
        [operand, .var ⟨1⟩, .operator .add, .customFunction "scale" 1]
      let halfway : Request :=
        .sign [.routine ⟨0⟩ 0, .customFunction "scale" 2, .customOperator ⟨0⟩ "pdf" .foreign]
      ∃ signature after last,
        (empty.serveAll [.code (.elementary .sin)]).sign (scaled (.draw ⟨0⟩))
            = (.ok signature, after)
        ∧ (after.serveAll [halfway]).sign (scaled (.slot ⟨7⟩)) = (.ok signature, last)
        ∧ List.Forall₂ Instruction.SameStructure (scaled (.draw ⟨0⟩)) (scaled (.slot ⟨7⟩)) := by
  refine ⟨[0, 0, 1, 38], ⟨[.function "scale"]⟩, ⟨[.function "scale", .routine ⟨0⟩]⟩, ?_⟩
  have signed : (empty.serveAll [.code (.elementary .sin)]).sign
      [.draw ⟨0⟩, .var ⟨1⟩, .operator .add, .customFunction "scale" 1]
      = (.ok [0, 0, 1, 38], ⟨[.function "scale"]⟩) := by
    cbv
  have signedLater : (serveAll ⟨[.function "scale"]⟩
      [.sign [.routine ⟨0⟩ 0, .customFunction "scale" 2, .customOperator ⟨0⟩ "pdf" .foreign]]).sign
      [.slot ⟨7⟩, .var ⟨1⟩, .operator .add, .customFunction "scale" 1]
      = (.ok [0, 0, 1, 38], ⟨[.function "scale", .routine ⟨0⟩]⟩) := by
    cbv
  exact ⟨signed, signedLater, (signatures_eq_iff signed signedLater).2.1.mpr ⟨rfl, rfl⟩⟩

/-- Two formulas that apply one function to two values and to one, in different orders. Both are
valid and have the same signature, but not the same structure.
-/
theorem signatures_ignore_arity
    : let first : Formula :=
        [.var ⟨0⟩, .var ⟨1⟩, .customFunction "f" 1, .customFunction "f" 2]
      let second : Formula :=
        [.var ⟨0⟩, .var ⟨1⟩, .customFunction "f" 2, .customFunction "f" 1]
      first.isValid = true
      ∧ second.isValid = true
      ∧ (∃ signature after,
          empty.sign first = (.ok signature, after)
          ∧ after.sign second = (.ok signature, after))
      ∧ ¬ List.Forall₂ Instruction.SameStructure first second
      ∧ first.map Instruction.pops ≠ second.map Instruction.pops := by
  refine ⟨rfl, rfl, ⟨[0, 0, 38, 38], ⟨[.function "f"]⟩, by cbv, by cbv⟩, ?_, by decide⟩
  intro same
  have here := same.get (i := 2) (by decide) (by decide)
  rcases here with ⟨one, _⟩ | _
  cases one

end CodeTable

end StepPlan
