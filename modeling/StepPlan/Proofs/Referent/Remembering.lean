import Mathlib
import StepPlan.Proofs.Distinct
import StepPlan.Proofs.Referent

/-! What was resolved before never changes what is found. The keys that a formula refers to are told
by the text of the formula and of the definitions it leads to, and by which keys have states. A memo
that started empty holds these keys for each of its variables, whatever was asked in the meantime,
so every answer is the same set that a walk without memo would find.
-/

namespace StepPlan

open Relation

namespace Program

-----------------------------------------------------------------------------------------
-- Keys and occurrences, without walks
-----------------------------------------------------------------------------------------

/-- (program.Governs stage target key) means that a target is read from the storage with that key,
which some state writes. While initial values are computed, initial value storage comes first.
-/
inductive Governs (program : Program) : Stage → Target → Key → Prop
  | initial {target : Target} (written : program.registry.governing? (.initial target) ≠ none)
    : Governs program .initial target (.initial target)
  | value {stage : Stage} {target : Target}
    (written : program.registry.governing? (.value target) ≠ none)
    (preferred : stage = .initial → program.registry.governing? (.initial target) = none)
    : Governs program stage target (.value target)

/-- The referents of a single instruction. A custom operator that no state governs is referred to by
its value all the same.
-/
inductive Names (program : Program) (stage : Stage) : Instruction → Referent → Prop
  | var {id : VarId} {key : Key} (governs : program.Governs stage (.var id) key)
    : Names program stage (.var id) ⟨key, .var⟩
  | draw (id : DrawId) : Names program stage (.draw id) ⟨.value (.draw id), .draw⟩
  | operator {id : OperatorId} {name : String} {access : Access} {key : Key}
    (governs : program.Governs stage (.operator id) key)
    : Names program stage (.customOperator id name access) ⟨key, .operator⟩
  | freeOperator {id : OperatorId} {name : String} {access : Access}
    (free : ∀ key, ¬ program.Governs stage (.operator id) key)
    : Names program stage (.customOperator id name access) ⟨.value (.operator id), .operator⟩
  | slot {id : StateId} {state : State} (registered : program.registry.get? id = some state)
    : Names program stage (.slot id) ⟨state.key, .slot⟩

/-- An instruction occurs in a formula, or in the definition of a variable that the formula leads to
through variables that no state governs.
-/
inductive Occurs (program : Program) (stage : Stage) (formula : Formula) : Instruction → Prop
  | text {instruction : Instruction} (member : instruction ∈ formula)
    : Occurs program stage formula instruction
  | definition {id : VarId} {definition : Formula} {instruction : Instruction}
    (outer : Occurs program stage formula (.var id))
    (free : ∀ key, ¬ program.Governs stage (.var id) key)
    (defined : program.model.definition? id = some definition) (member : instruction ∈ definition)
    : Occurs program stage formula instruction

variable {program : Program} {stage : Stage}

theorem governingKey?_eq_some_iff {target : Target} {key : Key}
    : program.governingKey? stage target = some key ↔ program.Governs stage target key := by
  unfold governingKey?
  constructor
  · intro found
    split at found
    · rename_i initial
      obtain ⟨rfl, written⟩ := initial
      cases found
      exact .initial (Option.isSome_iff_ne_none.mp written)
    · rename_i other
      obtain ⟨state, written, rfl⟩ := Option.map_eq_some_iff.mp found
      refine .value (by simp [written]) fun initial => ?_
      simpa [initial] using other
  · intro governs
    cases governs with
    | initial written => rw [if_pos ⟨rfl, Option.isSome_iff_ne_none.mpr written⟩]
    | value written preferred =>
        obtain ⟨state, found⟩ := Option.ne_none_iff_exists'.mp written
        rw [if_neg fun initial => by simp [preferred initial.1] at initial, found, Option.map_some]

theorem governingKey?_eq_none_iff {target : Target}
    : program.governingKey? stage target = none
      ↔ ∀ key, ¬ program.Governs stage target key := by
  simp only [Option.eq_none_iff_forall_ne_some, ne_eq, governingKey?_eq_some_iff]

/-- Naming is listed by the instruction itself. -/
theorem exists_named_iff {instruction : Instruction} {referent : Referent}
    : (∃ found, program.named stage instruction = .ok found ∧ referent ∈ found)
      ↔ program.Names stage instruction referent := by
  constructor
  · rintro ⟨found, names, member⟩
    cases instruction with
    | var id =>
        cases names
        obtain ⟨key, governs, rfl⟩ := List.mem_map.mp member
        exact .var (governingKey?_eq_some_iff.mp (Option.mem_toList.mp governs))
    | draw id =>
        cases names
        rw [List.mem_singleton.mp member]
        exact .draw id
    | customOperator id name access =>
        cases names
        rw [List.mem_singleton.mp member]
        cases governs : program.governingKey? stage (.operator id) with
        | none => exact .freeOperator (governingKey?_eq_none_iff.mp governs)
        | some key => exact .operator (governingKey?_eq_some_iff.mp governs)
    | slot id =>
        simp only [named, direct, Registry.get] at names
        cases registered : program.registry.get? id with
        | none => simp [registered] at names
        | some state =>
            simp only [registered, Except.ok.injEq] at names
            rw [← names, List.mem_singleton] at member
            rw [member]
            exact .slot registered
    | _ =>
        cases names
        cases member
  · intro names
    cases names with
    | var governs =>
        exact ⟨_, rfl, by simp [governingKey?_eq_some_iff.mpr governs]⟩
    | draw id => exact ⟨_, rfl, List.mem_singleton_self _⟩
    | operator governs =>
        exact ⟨_, rfl, by simp [governingKey?_eq_some_iff.mpr governs]⟩
    | freeOperator free =>
        exact ⟨_, rfl, by simp [governingKey?_eq_none_iff.mpr free]⟩
    | @slot id state registered =>
        exact ⟨[⟨state.key, .slot⟩], by simp [named, direct, Registry.get, registered], by simp⟩

/-- Only a slot of a state that is not registered has no referent. -/
theorem named_eq_error_iff {instruction : Instruction} {error : Error}
    : program.named stage instruction = .error error
      ↔ ∃ id,
          instruction = .slot id
          ∧ program.registry.get? id = none
          ∧ error = .unknownState id := by
  cases instruction with
  | slot id =>
      simp only [named, direct, Registry.get]
      cases registered : program.registry.get? id with
      | none => simp [registered, eq_comm]
      | some state => simp [registered]
  | _ => simp [named, direct]

theorem occurs_iff_reads {formula : Formula} {instruction : Instruction}
    : program.Occurs stage formula instruction ↔ program.Reads stage formula instruction := by
  constructor
  · intro occurs
    induction occurs with
    | text member => exact ⟨_, member, .refl⟩
    | definition _ free defined member ih =>
        obtain ⟨start, inside, below⟩ := ih
        refine ⟨start, inside, below.tail ⟨_, rfl, governingKey?_eq_none_iff.mpr free, ?_⟩⟩
        rw [defined]
        exact member
  · rintro ⟨start, inside, below⟩
    induction below with
    | refl => exact .text inside
    | tail _ step ih =>
        obtain ⟨id, rfl, ungoverned, member⟩ := step
        cases defined : program.model.definition? id with
        | none => simp [defined] at member
        | some definition =>
            rw [defined] at member
            exact .definition ih (governingKey?_eq_none_iff.mp ungoverned) defined member

theorem refers_iff {formula : Formula} {referent : Referent}
    : program.Refers stage formula referent
      ↔ ∃ instruction,
          program.Occurs stage formula instruction
          ∧ program.Names stage instruction referent := by
  simp only [Refers, occurs_iff_reads, ← exists_named_iff, exists_and_left]

theorem exists_fails_iff {formula : Formula}
    : (∃ error, program.Fails stage formula error)
      ↔ ∃ id, program.Occurs stage formula (.slot id) ∧ program.registry.get? id = none := by
  simp only [Fails, occurs_iff_reads, named_eq_error_iff]
  constructor
  · rintro ⟨error, instruction, reads, id, rfl, missing, _⟩
    exact ⟨id, reads, missing⟩
  · rintro ⟨id, reads, missing⟩
    exact ⟨.unknownState id, .slot id, reads, id, rfl, missing, rfl⟩

end Program

-----------------------------------------------------------------------------------------
-- Every entry is right
-----------------------------------------------------------------------------------------

/-- (memo.Faithful program) means that every entry belongs to a variable that no state governs and
lists its referents, each once.
-/
def Memo.Faithful (memo : Memo) (program : Program) : Prop :=
  ∀ entry ∈ memo.known,
    program.governingKey? entry.1.2 (.var entry.1.1) = none
    ∧ entry.2.Nodup
    ∧ program.Resolves entry.1.2 [.var entry.1.1] (.ok entry.2)

theorem Memo.faithful_empty (program : Program) : Memo.empty.Faithful program :=
  nofun

theorem Memo.Faithful.exact {memo : Memo} {program : Program} (faithful : memo.Faithful program)
    : memo.Exact program := by
  intro id stage known found _
  obtain ⟨before, after, split, _⟩ := List.lookup_eq_some_iff.mp found
  have inside : ((id, stage), known) ∈ memo.known := by
    rw [split]
    exact List.mem_append_right _ List.mem_cons_self
  exact (faithful _ inside).2.2

namespace Program

variable {program : Program} {memo : Memo} {stage : Stage}

/-- A walk through a definition adds the entry of its variable, unless it fails or the entry was
there.
-/
theorem throughDefinition_memo (program : Program) (memo : Memo) (stage : Stage) (id : VarId)
    : (program.throughDefinition memo stage id).2 = memo
      ∨ ∃ found,
          program.throughDefinition memo stage id = (.ok found, memo.insert id stage found)
          ∧ found.Nodup := by
  unfold throughDefinition
  split
  · exact Or.inl rfl
  · split
    · exact Or.inl rfl
    · exact Or.inr ⟨_, rfl, nodup_eraseDups _⟩

theorem throughDefinition_faithful (faithful : memo.Faithful program) {id : VarId}
    (ungoverned : program.governingKey? stage (.var id) = none)
    : (program.throughDefinition memo stage id).2.Faithful program := by
  rcases program.throughDefinition_memo memo stage id with same | ⟨found, walked, distinct⟩
  · rw [same]
    exact faithful
  · have resolves := (throughDefinition_resolves faithful.exact ungoverned).1
    rw [walked] at resolves ⊢
    exact List.forall_mem_cons.mpr ⟨⟨ungoverned, distinct, resolves⟩, faithful⟩

section Keeps

variable (keeps : Memo → Prop)
  (step
    : ∀ memo stage id,
        keeps memo
        → program.governingKey? stage (.var id) = none
        → keeps (program.throughDefinition memo stage id).2)
include step

/-- What walks through definitions keep true of the memo is kept by every instruction. -/
theorem referentsOf_keeps (kept : keeps memo) (stage : Stage) (instruction : Instruction)
    : keeps (program.referentsOf memo stage instruction).2 := by
  unfold referentsOf
  split
  · split
    · exact kept
    · rename_i ungoverned
      exact step memo stage _ kept ungoverned
  · exact kept

/-- It is kept from one instruction to the next, by induction on the formula. -/
theorem allReferents_keeps (kept : keeps memo) (stage : Stage) (formula : Formula)
    : keeps (program.allReferents memo stage formula).2 := by
  induction formula generalizing memo with
  | nil => exact kept
  | cons instruction rest ih =>
      have first := referentsOf_keeps keeps step kept stage instruction
      unfold allReferents
      split <;> rename_i outcome
      · rw [outcome] at first
        exact first
      · rw [outcome] at first
        have others := ih first
        split <;> rename_i outcomeRest
        · rw [outcomeRest] at others
          exact others
        · rw [outcomeRest] at others
          exact others

/-- What walks through definitions keep true of the memo is kept by resolution, even if it fails. -/
theorem referents_keeps (kept : keeps memo) (stage : Stage) (formula : Formula)
    : keeps (program.referents memo stage formula).2 := by
  have all := allReferents_keeps keeps step kept stage formula
  unfold referents
  split <;> rename_i outcome
  · rw [outcome] at all
    exact all
  · rw [outcome] at all
    exact all

end Keeps

theorem referents_faithful (faithful : memo.Faithful program) (stage : Stage) (formula : Formula)
    : (program.referents memo stage formula).2.Faithful program := by
  apply referents_keeps (·.Faithful program) ?_ faithful
  intro memo stage id faithful ungoverned
  exact throughDefinition_faithful faithful ungoverned

/-- The memo after a row of questions, each of which uses what the earlier ones left behind. -/
def rememberAll (program : Program) (memo : Memo) (asked : List (Stage × Formula)) : Memo :=
  asked.foldl (fun memo question => (program.referents memo question.1 question.2).2) memo

/-- Questions keep a memo faithful, by induction on them. -/
theorem rememberAll_faithful (faithful : memo.Faithful program) (asked : List (Stage × Formula))
    : (program.rememberAll memo asked).Faithful program := by
  induction asked generalizing memo with
  | nil => exact faithful
  | cons question rest ih => exact ih (referents_faithful faithful question.1 question.2)

theorem nodup_of_referents {formula : Formula} {found : List Referent}
    (outcome : (program.referents memo stage formula).1 = .ok found)
    : found.Nodup := by
  unfold referents at outcome
  split at outcome
  · nomatch outcome
  · cases outcome
    exact nodup_eraseDups _

/-- Whatever was asked since the memo was empty, resolution fails exactly when a slot of a state
that is not registered occurs. Otherwise it lists once each what the occurring instructions name.
Every entry of the memo lists in the same way what its variable leads to.
-/
theorem referents_exact (program : Program) (asked : List (Stage × Formula))
    : (∀ stage formula,
        ((∃ error,
            (program.referents (program.rememberAll .empty asked) stage formula).1
              = .error error)
          ↔ ∃ id,
              program.Occurs stage formula (.slot id) ∧ program.registry.get? id = none)
        ∧ ∀ found,
            (program.referents (program.rememberAll .empty asked) stage formula).1 = .ok found
            → found.Nodup
              ∧ ∀ referent,
                  referent ∈ found
                  ↔ ∃ instruction,
                      program.Occurs stage formula instruction
                      ∧ program.Names stage instruction referent)
      ∧ ∀ id stage known,
          ((id, stage), known) ∈ (program.rememberAll .empty asked).known
          → known.Nodup
            ∧ ∀ referent,
                referent ∈ known
                ↔ ∃ instruction,
                    program.Occurs stage [.var id] instruction
                    ∧ program.Names stage instruction referent := by
  have faithful := rememberAll_faithful (Memo.faithful_empty program) asked
  refine ⟨fun stage formula => ?_, fun id stage known inside => ?_⟩
  · have resolves := (referents_resolves faithful.exact stage formula).1
    rw [← exists_fails_iff]
    cases outcome : (program.referents (program.rememberAll .empty asked) stage formula).1 with
    | error error =>
        rw [outcome] at resolves
        exact ⟨iff_of_true ⟨error, rfl⟩ ⟨error, resolves⟩, nofun⟩
    | ok found =>
        rw [outcome] at resolves
        refine ⟨iff_of_false nofun fun ⟨error, fails⟩ => resolves.1 error fails, ?_⟩
        rintro same ⟨⟩
        refine ⟨nodup_of_referents outcome, fun referent => ?_⟩
        rw [resolves.2, refers_iff]
  · obtain ⟨_, distinct, resolves⟩ := faithful _ inside
    refine ⟨distinct, fun referent => ?_⟩
    rw [resolves.2, refers_iff]

/-- The definitions of `a` and `b` mention each other. On the way they read `x`, which has an
initializer, and a random draw.
-/
def circular : Program where
  model := ⟨[⟨"x", ⟨false, false, false, true⟩, none⟩,
    ⟨"a", ⟨false, false, false, false⟩,
      some [.var (.ofIndex 2), .var (.ofIndex 0), .operator .add]⟩,
    ⟨"b", ⟨false, false, false, false⟩,
      some [.var (.ofIndex 1), .draw (.ofIndex 0), .operator .add]⟩]⟩
  registry := [⟨.var (.ofIndex 0), .integrated, [], "x"⟩,
    ⟨.var (.ofIndex 0), .initialization, [], "x0"⟩].foldl
      (fun registry state => (registry.add state).2) .empty

/-- What is known of `b` is taken over in the middle of the walk from `a`, and nothing is missed. -/
theorem referents_exact_circular
    : (circular.referents (circular.rememberAll .empty [(.initial, [.var (.ofIndex 2)])]) .initial
          [.var (.ofIndex 1)]).1
        = .ok [⟨.value (.draw (.ofIndex 0)), .draw⟩, ⟨.initial (.var (.ofIndex 0)), .var⟩]
      ∧ (∃ instruction,
          circular.Occurs .initial [.var (.ofIndex 1)] instruction
          ∧ circular.Names .initial instruction ⟨.initial (.var (.ofIndex 0)), .var⟩)
      ∧ ¬ ∃ instruction,
          circular.Occurs .initial [.var (.ofIndex 1)] instruction
          ∧ circular.Names .initial instruction ⟨.value (.var (.ofIndex 0)), .var⟩ := by
  have found : (circular.referents
      (circular.rememberAll .empty [(.initial, [.var (.ofIndex 2)])]) .initial
        [.var (.ofIndex 1)]).1
      = .ok [⟨.value (.draw (.ofIndex 0)), .draw⟩, ⟨.initial (.var (.ofIndex 0)), .var⟩] := by
    cbv
  have lists := ((referents_exact circular [(.initial, [.var (.ofIndex 2)])]).1 .initial
    [.var (.ofIndex 1)]).2 _ found
  refine ⟨found, (lists.2 _).mp ?_, mt (lists.2 _).mpr ?_⟩
  · exact List.mem_cons_of_mem _ List.mem_cons_self
  · decide

end Program

end StepPlan
