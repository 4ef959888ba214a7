import Mathlib
import StepPlan.Proofs.Signature.Structure
import StepPlan.Signature.Keys

/-! Codes do not depend on how they are kept. Different labels have different keys, so a table that
keeps codes under keys hands out the codes of the labels, modulo `2 ^ 32`. No code is as large as
the next one, so none is lost before the counter of 32 bits starts over.
-/

namespace StepPlan

-----------------------------------------------------------------------------------------
-- Keys
-----------------------------------------------------------------------------------------

/-- Numbers in decimal tell identifiers apart. -/
theorem Ident.text_inj {kind : IdentKind} {first second : Ident kind}
    (same : first.text = second.text)
    : first = second := by
  have spelled := congrArg String.toList same
  have value := congrArg (fun digits => Nat.ofDigitChars 10 digits 0) spelled
  exact index_inj.mp (by simpa [text, Nat.toString_eq_ofList_toDigits] using value)

/-- Different labels have different keys: the marks differ in their first letter, and behind a mark
stands a name or a number.
-/
theorem Label.key_inj {first second : Label} : first.key = second.key ↔ first = second := by
  constructor
  · intro same
    have spelled := congrArg String.toList same
    cases first with
    | function name =>
        cases second with
        | function other =>
            simp only [key, String.toList_append, List.append_cancel_left_eq] at spelled
            rw [String.toList_inj.mp spelled]
        | routine cluster => simp [key, String.toList_append] at spelled
    | routine cluster =>
        cases second with
        | function name => simp [key, String.toList_append] at spelled
        | routine other =>
            simp only [key, String.toList_append, List.append_cancel_left_eq] at spelled
            rw [Ident.text_inj (String.toList_inj.mp spelled)]
  · exact congrArg key

-----------------------------------------------------------------------------------------
-- Codes under keys
-----------------------------------------------------------------------------------------

namespace CodeTable

variable {table : CodeTable}

/-- Handing out a code for one label changes nothing for another. -/
theorem codeOf?_allocate_of_ne {label other : Label} (different : label ≠ other)
    : (table.allocate label).2.codeOf? (.label other) = table.codeOf? (.label other) := by
  unfold allocate
  split
  · rfl
  · simp [codeOf?, List.idxOf?, List.findIdx?_append, different]

/-- Every code is below the next one. -/
theorem codeOf?_lt {head : Head} {code : Code} (coded : table.codeOf? head = some code)
    : code < Signature.labelBase + table.allocated := by
  cases head with
  | operand =>
      cases coded
      exact Nat.lt_add_right _ (by decide)
  | operator op =>
      cases coded
      have bound := (List.getElem?_eq_some_iff.mp op.getElem?_number).1
      exact Nat.lt_add_right _ (Nat.lt_add_right _ (Nat.add_lt_add_left bound _))
  | elementary fn =>
      cases coded
      have bound := (List.getElem?_eq_some_iff.mp fn.getElem?_number).1
      exact Nat.lt_add_right _ (Nat.add_lt_add_left bound _)
  | label label =>
      obtain ⟨position, found, rfl⟩ := Option.map_eq_some_iff.mp coded
      exact Nat.add_lt_add_left (List.idxOf?_eq_some_iff.mp found).1 _

theorem sign_lt {later : CodeTable} {formula : Formula} {signature : Signature}
    (signed : table.sign formula = (.ok signature, later)) {code : Code}
    (member : code ∈ signature)
    : code < Signature.labelBase + later.allocated := by
  obtain ⟨position, bound, rfl⟩ := List.mem_iff_getElem.mp member
  have signs := (sign_eq_ok signed).2
  have coded := signs.get (i := position) (signs.length_eq ▸ bound) bound
  obtain ⟨head, _, found⟩ := Option.bind_eq_some_iff.mp coded
  exact codeOf?_lt found

end CodeTable

namespace KeyTable

/-- (keyed.Mirrors table) means that the codes of all labels are found under their keys, modulo
`2 ^ 32`, and that the counter is at the next one.
-/
structure Mirrors (keyed : KeyTable) (table : CodeTable) : Prop where
  found
    : ∀ label : Label,
        keyed.codes.lookup label.key = (table.codeOf? (.label label)).map UInt32.ofNat
  next : keyed.next = .ofNat (Signature.labelBase + table.allocated)
  allocated : keyed.allocated = table.allocated

theorem mirrors_empty : empty.Mirrors .empty := by
  constructor <;> simp [empty, CodeTable.empty, allocated, CodeTable.allocated, CodeTable.codeOf?]

variable {keyed : KeyTable} {table : CodeTable}

/-- A label gets the same code from both tables. -/
theorem Mirrors.allocate (mirrors : keyed.Mirrors table) (label : Label)
    : (keyed.allocate label.key).1 = .ofNat (table.allocate label).1
      ∧ (keyed.allocate label.key).2.Mirrors (table.allocate label).2 := by
  have found := mirrors.found label
  cases position : table.labels.idxOf? label with
  | some position =>
      rw [CodeTable.codeOf?, position, Option.map_some, Option.map_some] at found
      rw [KeyTable.allocate, CodeTable.allocate, found, position]
      exact ⟨rfl, mirrors⟩
  | none =>
      rw [CodeTable.codeOf?, position, Option.map_none, Option.map_none] at found
      have spec := (table.allocate_spec label).2
      have others := @table.codeOf?_allocate_of_ne label
      rw [CodeTable.allocate, position] at spec others
      rw [KeyTable.allocate, CodeTable.allocate, found, position]
      refine ⟨mirrors.next, ?_, ?_, ?_⟩
      · intro other
        dsimp only at others ⊢
        rw [List.lookup_cons]
        by_cases same : label = other
        · subst other
          rw [beq_self_eq_true, spec, mirrors.next]
          rfl
        · have apart := mt (fun equal => Label.key_inj.mp (Eq.symm equal)) same
          rw [beq_eq_false_iff_ne.mpr apart, others same]
          exact mirrors.found other
      · dsimp only [CodeTable.allocated]
        rw [mirrors.next, List.length_append, List.length_singleton, ← Nat.add_assoc]
        exact (UInt32.ofNat_add _ 1).symm
      · simpa [KeyTable.allocated, CodeTable.allocated] using mirrors.allocated

/-- An instruction gets the same code from both tables. -/
theorem Mirrors.code (mirrors : keyed.Mirrors table) (instruction : Instruction)
    : (keyed.code instruction).1 = (table.code instruction).1.map UInt32.ofNat
      ∧ (keyed.code instruction).2.Mirrors (table.code instruction).2 := by
  cases instruction with
  | customFunction name arity =>
      obtain ⟨same, later⟩ := mirrors.allocate (.function name)
      exact ⟨congrArg Except.ok same, later⟩
  | routine cluster arity =>
      obtain ⟨same, later⟩ := mirrors.allocate (.routine cluster)
      exact ⟨congrArg Except.ok same, later⟩
  | customOperator id name access => cases access <;> exact ⟨rfl, mirrors⟩
  | _ => exact ⟨rfl, mirrors⟩

/-- A formula gets the same codes from both tables, by induction on the formula. -/
theorem Mirrors.sign (mirrors : keyed.Mirrors table) (formula : Formula)
    : (keyed.sign formula).1 = (table.sign formula).1.map (List.map UInt32.ofNat)
      ∧ (keyed.sign formula).2.Mirrors (table.sign formula).2 := by
  induction formula generalizing keyed table with
  | nil => exact ⟨rfl, mirrors⟩
  | cons instruction rest ih =>
      obtain ⟨same, later⟩ := mirrors.code instruction
      unfold KeyTable.sign CodeTable.sign
      generalize keyed.code instruction = keyedCoded at same later
      generalize table.code instruction = coded at same later
      obtain ⟨keyedOutcome, keyedNext⟩ := keyedCoded
      rcases coded with ⟨error | code, next⟩
      · cases same
        exact ⟨rfl, later⟩
      · cases same
        obtain ⟨sameRest, last⟩ := ih later
        dsimp only
        generalize keyedNext.sign rest = keyedSigned at sameRest last
        generalize next.sign rest = signed at sameRest last
        obtain ⟨keyedRest, keyedLast⟩ := keyedSigned
        rcases signed with ⟨error | codes, final⟩ <;> cases sameRest <;> exact ⟨rfl, last⟩

/-- The table after a request. -/
def serve (keyed : KeyTable) : CodeTable.Request → KeyTable
  | .code instruction => (keyed.code instruction).2
  | .sign formula => (keyed.sign formula).2

/-- The table after requests in a row. -/
def serveAll (keyed : KeyTable) (requests : List CodeTable.Request) : KeyTable :=
  requests.foldl serve keyed

theorem Mirrors.serveAll (mirrors : keyed.Mirrors table) (requests : List CodeTable.Request)
    : (keyed.serveAll requests).Mirrors (table.serveAll requests) := by
  induction requests generalizing keyed table with
  | nil => exact mirrors
  | cons request rest ih =>
      refine ih ?_
      cases request with
      | code instruction => exact (mirrors.code instruction).2
      | sign formula => exact (mirrors.sign formula).2

/-- Whatever was asked before, formulas get their codes, as long as no more codes have been handed
out than 32 bits can count.
-/
theorem sign_serveAll (requests : List CodeTable.Request) (formula : Formula)
    (few : Signature.labelBase + ((CodeTable.empty.serveAll requests).sign formula).2.allocated
      ≤ 2 ^ 32)
    : ((empty.serveAll requests).sign formula).1.map (List.map UInt32.toNat)
      = ((CodeTable.empty.serveAll requests).sign formula).1 := by
  rw [((mirrors_empty.serveAll requests).sign formula).1]
  rcases signed : (CodeTable.empty.serveAll requests).sign formula with ⟨error | signature, last⟩
  · rfl
  · rw [signed] at few
    refine congrArg Except.ok ?_
    have kept : ∀ code ∈ signature, (UInt32.ofNat code).toNat = code := by
      intro code member
      exact UInt32.toNat_ofNat_of_lt' (Nat.lt_of_lt_of_le (CodeTable.sign_lt signed member) few)
    rw [List.map_map]
    exact (List.map_congr_left kept).trans (List.map_id' signature)

end KeyTable

end StepPlan
