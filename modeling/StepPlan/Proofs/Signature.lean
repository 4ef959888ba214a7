import Mathlib.Data.List.Forall2
import StepPlan.Signature

/-! Signatures tell what formulas are made of. The code of an instruction stands for its head:
that it is an operand, or which builtin, custom function or routine it is. A table only grows, so a
code once handed out keeps its meaning, and heads with one code are equal. Formulas that were
signed alike therefore agree in the heads of their instructions, at any time of signing.
-/

namespace StepPlan

/-- What the code of an instruction tells about it. -/
inductive Head where
  | operand
  | operator (op : Operator)
  | elementary (fn : Elementary)
  | label (label : Label)

namespace Instruction

/-- The head of an instruction. Custom operators of unknown structure have none. -/
def head? : Instruction → Option Head
  | .operator op => some (.operator op)
  | .elementary fn => some (.elementary fn)
  | .customFunction name _ => some (.label (.function name))
  | .routine cluster _ => some (.label (.routine cluster))
  | .customOperator _ _ .foreign => none
  | _ => some .operand

/-- Exactly the operands have the head of an operand. -/
theorem head?_eq_operand_iff {instruction : Instruction}
    : instruction.head? = some .operand ↔ instruction.isOperand = true := by
  cases instruction with
  | customOperator id name access => cases access <;> simp [head?, isOperand]
  | _ => simp [head?, isOperand]

theorem head?_eq_operator_iff {instruction : Instruction} {op : Operator}
    : instruction.head? = some (.operator op) ↔ instruction = .operator op := by
  cases instruction with
  | customOperator id name access => cases access <;> simp [head?]
  | _ => simp [head?]

theorem head?_eq_elementary_iff {instruction : Instruction} {fn : Elementary}
    : instruction.head? = some (.elementary fn) ↔ instruction = .elementary fn := by
  cases instruction with
  | customOperator id name access => cases access <;> simp [head?]
  | _ => simp [head?]

/-- The head of a custom function leaves its arity open. -/
theorem head?_eq_function_iff {instruction : Instruction} {name : String}
    : instruction.head? = some (.label (.function name))
      ↔ ∃ arity, instruction = .customFunction name arity := by
  cases instruction with
  | customOperator id name access => cases access <;> simp [head?]
  | _ => simp [head?]

theorem head?_eq_routine_iff {instruction : Instruction} {cluster : ClusterId}
    : instruction.head? = some (.label (.routine cluster))
      ↔ ∃ arity, instruction = .routine cluster arity := by
  cases instruction with
  | customOperator id name access => cases access <;> simp [head?]
  | _ => simp [head?]

/-- Operands take no values. -/
theorem pops_of_isOperand {instruction : Instruction} (isOperand : instruction.isOperand = true)
    : instruction.pops = 0 := by
  cases instruction with
  | operator op => nomatch isOperand
  | elementary fn => nomatch isOperand
  | customFunction name arity => nomatch isOperand
  | routine cluster arity => nomatch isOperand
  | _ => rfl

end Instruction

/-- The heads of the instructions of a formula, which do not depend on codes. -/
def Formula.heads (formula : Formula) : List (Option Head) :=
  formula.map Instruction.head?

theorem Operator.getElem?_number (op : Operator) : Tagged.all[op.number]? = some op := by
  cases op <;> decide

theorem Elementary.getElem?_number (fn : Elementary) : Tagged.all[fn.number]? = some fn := by
  cases fn <;> decide

namespace CodeTable

/-- The code of a head, if it has one yet. -/
def codeOf? (table : CodeTable) : Head → Option Code
  | .operand => some Signature.placeholder
  | .operator op => some (Signature.operatorBase + op.number)
  | .elementary fn => some (Signature.elementaryBase + fn.number)
  | .label label => (table.labels.idxOf? label).map (Signature.labelBase + ·)

/-- The head that a code stands for: the ranges of codes are apart, and the place in its range
tells the head.
-/
def headOf? (table : CodeTable) (code : Code) : Option Head :=
  if code < Signature.operatorBase then some .operand
  else if code < Signature.elementaryBase then
    (Tagged.all[code - Signature.operatorBase]?).map .operator
  else if code < Signature.labelBase then
    (Tagged.all[code - Signature.elementaryBase]?).map .elementary
  else (table.labels[code - Signature.labelBase]?).map .label

/-- A code stands for the head that it is the code of. -/
theorem headOf?_of_codeOf? {table : CodeTable} {head : Head} {code : Code}
    (known : table.codeOf? head = some code)
    : table.headOf? code = some head := by
  cases head with
  | operand =>
      cases known
      rfl
  | operator op =>
      cases known
      have bound : op.number < Operator.count :=
        (List.getElem?_eq_some_iff.mp op.getElem?_number).1
      have start : Signature.operatorBase ≤ Signature.operatorBase + op.number :=
        Nat.le_add_right _ _
      have inside : Signature.operatorBase + op.number < Signature.elementaryBase :=
        Nat.add_lt_add_left bound _
      rw [headOf?, if_neg (Nat.not_lt.mpr start), if_pos inside, Nat.add_sub_cancel_left,
        op.getElem?_number, Option.map_some]
  | elementary fn =>
      cases known
      have bound : fn.number < Elementary.count :=
        (List.getElem?_eq_some_iff.mp fn.getElem?_number).1
      have start : Signature.elementaryBase ≤ Signature.elementaryBase + fn.number :=
        Nat.le_add_right _ _
      have lower : Signature.operatorBase ≤ Signature.elementaryBase + fn.number :=
        Nat.le_trans (Nat.le_add_right _ _) start
      have inside : Signature.elementaryBase + fn.number < Signature.labelBase :=
        Nat.add_lt_add_left bound _
      rw [headOf?, if_neg (Nat.not_lt.mpr lower), if_neg (Nat.not_lt.mpr start), if_pos inside,
        Nat.add_sub_cancel_left, fn.getElem?_number, Option.map_some]
  | label label =>
      obtain ⟨position, found, rfl⟩ := Option.map_eq_some_iff.mp known
      obtain ⟨bound, here, _⟩ := List.idxOf?_eq_some_iff.mp found
      have start : Signature.labelBase ≤ Signature.labelBase + position := Nat.le_add_right _ _
      have lower : Signature.elementaryBase ≤ Signature.labelBase + position :=
        Nat.le_trans (Nat.le_add_right _ _) start
      have lowest : Signature.operatorBase ≤ Signature.labelBase + position :=
        Nat.le_trans (Nat.le_add_right _ _) lower
      rw [headOf?, if_neg (Nat.not_lt.mpr lowest), if_neg (Nat.not_lt.mpr lower),
        if_neg (Nat.not_lt.mpr start), Nat.add_sub_cancel_left, List.getElem?_eq_getElem bound,
        here, Option.map_some]

theorem codeOf?_inj {table : CodeTable} {first second : Head} {code : Code}
    (one : table.codeOf? first = some code) (other : table.codeOf? second = some code)
    : first = second :=
  Option.some.inj ((headOf?_of_codeOf? one).symm.trans (headOf?_of_codeOf? other))

/-- A head keeps its code while further labels are added. -/
theorem codeOf?_mono {table later : CodeTable} (grown : table.labels <+: later.labels) {head : Head}
    {code : Code} (known : table.codeOf? head = some code)
    : later.codeOf? head = some code := by
  cases head with
  | label label =>
      obtain ⟨position, found, rfl⟩ := Option.map_eq_some_iff.mp known
      obtain ⟨added, labels⟩ := grown
      refine Option.map_eq_some_iff.mpr ⟨position, ?_, rfl⟩
      rw [← labels, List.idxOf?, List.findIdx?_append]
      exact congrArg (Option.or · _) found
  | _ => exact known

/-- (table.Signs formula signature) means that the codes of the signature are those of the
formula's heads.
-/
def Signs (table : CodeTable) (formula : Formula) (signature : Signature) : Prop :=
  List.Forall₂ (fun instruction code => instruction.head?.bind table.codeOf? = some code)
    formula signature

/-- A signature stays right while further labels are added. -/
theorem Signs.mono {table later : CodeTable} {formula : Formula} {signature : Signature}
    (signs : table.Signs formula signature) (grown : table.labels <+: later.labels)
    : later.Signs formula signature := by
  refine signs.imp ?_
  intro instruction code known
  obtain ⟨head, found, coded⟩ := Option.bind_eq_some_iff.mp known
  exact Option.bind_eq_some_iff.mpr ⟨head, found, codeOf?_mono grown coded⟩

/-- A label has its code afterwards, and no label loses one. -/
theorem allocate_spec (table : CodeTable) (label : Label)
    : table.labels <+: (table.allocate label).2.labels
      ∧ (table.allocate label).2.codeOf? (.label label) = some (table.allocate label).1 := by
  unfold allocate
  split
  · rename_i position found
    exact ⟨List.prefix_rfl, by simp [codeOf?, found]⟩
  · rename_i missing
    refine ⟨List.prefix_append _ _, ?_⟩
    have fresh := List.idxOf?_eq_none_iff.mp missing
    have here : (table.labels ++ [label]).idxOf? label = some table.labels.length := by
      refine List.idxOf?_eq_some_iff.mpr ⟨by simp, by simp, ?_⟩
      intro position earlier same
      rw [List.getElem_append_left earlier] at same
      exact fresh (same ▸ List.getElem_mem earlier)
    simp [codeOf?, here]

/-- A code that is given out is the code of the instruction's head. -/
theorem code_eq_ok {table later : CodeTable} {instruction : Instruction} {code : Code}
    (done : table.code instruction = (.ok code, later))
    : table.labels <+: later.labels ∧ instruction.head?.bind later.codeOf? = some code := by
  cases instruction with
  | customFunction name arity =>
      obtain ⟨grown, coded⟩ := table.allocate_spec (.function name)
      cases done
      exact ⟨grown, coded⟩
  | routine cluster arity =>
      obtain ⟨grown, coded⟩ := table.allocate_spec (.routine cluster)
      cases done
      exact ⟨grown, coded⟩
  | customOperator id name access =>
      cases access with
      | delayed =>
          cases done
          exact ⟨List.prefix_rfl, rfl⟩
      | foreign => nomatch done
  | _ =>
      cases done
      exact ⟨List.prefix_rfl, rfl⟩

/-- A signature that is given out is right, by induction on the formula. -/
theorem sign_eq_ok {table later : CodeTable} {formula : Formula} {signature : Signature}
    (done : table.sign formula = (.ok signature, later))
    : table.labels <+: later.labels ∧ later.Signs formula signature := by
  induction formula generalizing table signature with
  | nil =>
      cases done
      exact ⟨List.prefix_rfl, .nil⟩
  | cons instruction rest ih =>
      unfold sign at done
      split at done
      · nomatch done
      · rename_i code next coded
        split at done
        · nomatch done
        · rename_i codes last signed
          cases done
          obtain ⟨grown, known⟩ := code_eq_ok coded
          obtain ⟨grownMore, signs⟩ := ih signed
          refine ⟨grown.trans grownMore, .cons ?_ signs⟩
          obtain ⟨head, found, headCode⟩ := Option.bind_eq_some_iff.mp known
          exact Option.bind_eq_some_iff.mpr ⟨head, found, codeOf?_mono grownMore headCode⟩

/-- At every position of a signature the formula has an instruction with that code. -/
theorem Signs.getElem? {table : CodeTable} {formula : Formula} {signature : Signature}
    (signs : table.Signs formula signature) {position : Nat} {code : Code}
    (here : signature[position]? = some code)
    : ∃ instruction head, formula[position]? = some instruction
      ∧ instruction.head? = some head
      ∧ table.codeOf? head = some code := by
  obtain ⟨bound, rfl⟩ := List.getElem?_eq_some_iff.mp here
  have formulaBound : position < formula.length := signs.length_eq ▸ bound
  have known := (List.forall₂_iff_get.mp signs).2 position formulaBound bound
  obtain ⟨head, found, coded⟩ := Option.bind_eq_some_iff.mp known
  exact ⟨formula[position], head, List.getElem?_eq_getElem formulaBound, found, coded⟩

/-- Every instruction of a formula that was signed has a head, by induction on the formula. -/
theorem Signs.exists_head {table : CodeTable} {formula : Formula} {signature : Signature}
    (signs : table.Signs formula signature) {instruction : Instruction}
    (member : instruction ∈ formula)
    : ∃ head, instruction.head? = some head := by
  induction signs with
  | nil => nomatch member
  | cons known _ ih =>
      rcases List.mem_cons.mp member with rfl | later
      · obtain ⟨head, found, _⟩ := Option.bind_eq_some_iff.mp known
        exact ⟨head, found⟩
      · exact ih later

/-- An instruction whose code is known is coded without handing out a new one. -/
theorem code_of_known {table : CodeTable} {instruction : Instruction} {code : Code}
    (known : instruction.head?.bind table.codeOf? = some code)
    : table.code instruction = (.ok code, table) := by
  have allocated : ∀ label, table.codeOf? (.label label) = some code
      → table.allocate label = (code, table) := by
    intro label coded
    obtain ⟨position, found, rfl⟩ := Option.map_eq_some_iff.mp coded
    simp only [allocate, found]
  cases instruction with
  | customFunction name arity => simp only [CodeTable.code, allocated _ known]
  | routine cluster arity => simp only [CodeTable.code, allocated _ known]
  | customOperator id name access =>
      cases access with
      | delayed =>
          cases known
          rfl
      | foreign => nomatch known
  | _ =>
      cases known
      rfl

/-- A formula whose signature is right is signed again in the same way, by induction on the
formula.
-/
theorem Signs.sign_eq {table : CodeTable} {formula : Formula} {signature : Signature}
    (signs : table.Signs formula signature)
    : table.sign formula = (.ok signature, table) := by
  induction signs with
  | nil => rfl
  | cons known _ ih => simp only [sign, code_of_known known, ih]

/-- Formulas have one signature exactly when they agree in their heads, by induction on the first.
-/
theorem Signs.heads_eq_iff {table : CodeTable} {first second : Formula} {one other : Signature}
    (signs : table.Signs first one) (otherSigns : table.Signs second other)
    : first.heads = second.heads ↔ one = other := by
  induction signs generalizing second other with
  | nil => cases otherSigns <;> simp [Formula.heads]
  | cons known _ ih =>
      cases otherSigns with
      | nil => simp [Formula.heads]
      | cons otherKnown otherRest =>
          obtain ⟨head, found, coded⟩ := Option.bind_eq_some_iff.mp known
          obtain ⟨otherHead, otherFound, otherCoded⟩ := Option.bind_eq_some_iff.mp otherKnown
          have later := ih otherRest
          simp only [Formula.heads] at later
          simp only [Formula.heads, List.map_cons, List.cons.injEq, later, found, otherFound,
            Option.some.injEq]
          refine and_congr_left fun _ => ⟨?_, ?_⟩
          · rintro rfl
            exact Option.some.inj (coded.symm.trans otherCoded)
          · rintro rfl
            exact codeOf?_inj coded otherCoded

theorem signs_iff_heads {table : CodeTable} {formula : Formula} {signature : Signature}
    : table.Signs formula signature
      ↔ List.Forall₂ (fun head code => head.bind table.codeOf? = some code) formula.heads
          signature := by
  rw [Formula.heads, List.forall₂_map_left_iff, Signs]

-----------------------------------------------------------------------------------------
-- Signatures from two tables
-----------------------------------------------------------------------------------------

/-- (SameCode table other code counterpart) means that two codes are equal, or that they are the
codes of one custom function or routine, each in its table.
-/
def SameCode (table other : CodeTable) (code counterpart : Code) : Prop :=
  code = counterpart
  ∨ ∃ label,
      table.codeOf? (.label label) = some code ∧ other.codeOf? (.label label) = some counterpart

/-- Whatever two tables have handed out before, they sign a formula alike. Only labels have codes of
which a table may dispose.
-/
theorem Signs.sameCode {table other : CodeTable} {formula : Formula}
    {signature otherSignature : Signature} (signs : table.Signs formula signature)
    (otherSigns : other.Signs formula otherSignature)
    : List.Forall₂ (SameCode table other) signature otherSignature := by
  induction signs generalizing otherSignature with
  | nil =>
      cases otherSigns
      exact .nil
  | cons known _ ih =>
      cases otherSigns with
      | cons otherKnown otherRest =>
          refine .cons ?_ (ih otherRest)
          obtain ⟨head, found, coded⟩ := Option.bind_eq_some_iff.mp known
          obtain ⟨otherHead, otherFound, otherCoded⟩ := Option.bind_eq_some_iff.mp otherKnown
          cases found.symm.trans otherFound
          cases head with
          | label label => exact Or.inr ⟨label, coded, otherCoded⟩
          | _ => exact Or.inl (Option.some.inj (coded.symm.trans otherCoded))

theorem SameCode.eq_placeholder_iff {table other : CodeTable} {code counterpart : Code}
    (same : SameCode table other code counterpart)
    : code = Signature.placeholder ↔ counterpart = Signature.placeholder := by
  have labels : ∀ {table : CodeTable} {label : Label} {code : Code},
      table.codeOf? (.label label) = some code → code ≠ Signature.placeholder := by
    intro table label code coded reserved
    subst reserved
    cases codeOf?_inj coded (rfl : table.codeOf? .operand = some Signature.placeholder)
  rcases same with equal | ⟨label, coded, otherCoded⟩
  · rw [equal]
  · exact iff_of_false (labels coded) (labels otherCoded)

theorem placeholders_eq {table other : CodeTable} {signature otherSignature : Signature}
    (same : List.Forall₂ (SameCode table other) signature otherSignature)
    : signature.placeholders = otherSignature.placeholders := by
  unfold Signature.placeholders
  rw [same.length_eq]
  refine List.filter_congr fun position member => ?_
  have bound := List.mem_range.mp member
  have here := same.get (same.length_eq ▸ bound) bound
  rw [List.getElem?_eq_getElem (same.length_eq ▸ bound), List.getElem?_eq_getElem bound,
    Bool.eq_iff_iff, beq_iff_eq, beq_iff_eq, Option.some.injEq, Option.some.injEq]
  exact here.eq_placeholder_iff

-----------------------------------------------------------------------------------------
-- When signing succeeds
-----------------------------------------------------------------------------------------

theorem exists_code (table : CodeTable) {instruction : Instruction}
    (headed : instruction.head? ≠ none)
    : ∃ code later, table.code instruction = (.ok code, later) := by
  cases instruction with
  | customOperator id name access =>
      cases access with
      | delayed => exact ⟨_, _, rfl⟩
      | foreign => exact absurd rfl headed
  | _ => exact ⟨_, _, rfl⟩

/-- Signing fails only at an instruction without a head, whatever the table, by induction on the
formula.
-/
theorem exists_sign_iff (table : CodeTable) {formula : Formula}
    : (∃ signature later, table.sign formula = (.ok signature, later))
      ↔ ∀ instruction ∈ formula, instruction.head? ≠ none := by
  constructor
  · intro ⟨signature, later, done⟩ instruction member missing
    obtain ⟨head, found⟩ := (sign_eq_ok done).2.exists_head member
    cases missing.symm.trans found
  · intro headed
    induction formula generalizing table with
    | nil => exact ⟨[], table, rfl⟩
    | cons instruction rest ih =>
        obtain ⟨first, others⟩ := List.forall_mem_cons.mp headed
        obtain ⟨code, next, coded⟩ := table.exists_code first
        obtain ⟨codes, later, signed⟩ := ih next others
        exact ⟨code :: codes, later, by simp only [sign, coded, signed]⟩

end CodeTable

end StepPlan
