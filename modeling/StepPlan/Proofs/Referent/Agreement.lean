import Mathlib.Data.List.Nodup
import StepPlan.Proofs.Referent.Remembering

/-! Exact memos lead to the same error. A memo knows no variable whose definition leads to an error,
and a variable whose definition leads to none never makes such a variable pending. So the variables
that lead to errors have their turns in the same order, whatever else a walk takes over from a memo.
Where there is no error, the same referents are found, in an order that depends on the memo.
-/

namespace StepPlan.Program

variable {program : Program} {stage : Stage} {memo other : Memo}

/-- (program.Doomed stage id) means that the definition of a variable leads to an error. -/
def Doomed (program : Program) (stage : Stage) (id : VarId) : Prop :=
  ∃ error, program.Fails stage ((program.model.definition? id).getD []) error

/-- (program.Safe stage instruction) means that an instruction leads to no error. -/
def Safe (program : Program) (stage : Stage) (instruction : Instruction) : Prop :=
  ∀ error, ¬ program.Fails stage [instruction] error

theorem fails_iff_exists_mem {formula : Formula} {error : Error}
    : program.Fails stage formula error
      ↔ ∃ instruction ∈ formula, program.Fails stage [instruction] error := by
  simp only [Fails, Reads, List.mem_singleton, exists_eq_left]
  constructor
  · rintro ⟨inner, ⟨start, member, reads⟩, names⟩
    exact ⟨start, member, inner, reads, names⟩
  · rintro ⟨start, member, inner, reads, names⟩
    exact ⟨inner, ⟨start, member, reads⟩, names⟩

/-- A variable that no state governs is safe if its definition is. -/
theorem safe_var_iff {id : VarId} (ungoverned : program.governingKey? stage (.var id) = none)
    : program.Safe stage (.var id) ↔ ¬ program.Doomed stage id := by
  constructor
  · intro safe ⟨error, failure⟩
    obtain ⟨instruction, member, failure⟩ := fails_iff_exists_mem.mp failure
    have unfolds : program.Unfolds stage (.var id) instruction := ⟨id, rfl, ungoverned, member⟩
    exact safe error (failure.of_reads (reads_singleton.mpr (.single unfolds)))
  · intro spared error ⟨inner, reads, names⟩
    rcases Relation.ReflTransGen.cases_head (reads_singleton.mp reads) with
      rfl | ⟨instruction, ⟨same, read, _, member⟩, below⟩
    · nomatch names
    · cases read
      exact spared ⟨error, inner, ⟨instruction, member, below⟩, names⟩

theorem safe_of_not_doomed {id : VarId} (spared : ¬ program.Doomed stage id)
    : ∀ instruction ∈ (program.model.definition? id).getD [], program.Safe stage instruction :=
  fun instruction member error failure =>
    spared ⟨error, fails_iff_exists_mem.mpr ⟨instruction, member, failure⟩⟩

/-- An exact memo knows no variable that leads to an error. -/
theorem find?_eq_none_of_doomed (exact : memo.Exact program) {id : VarId}
    (ungoverned : program.governingKey? stage (.var id) = none)
    (doomed : program.Doomed stage id)
    : memo.find? id stage = none := by
  cases lookup : memo.find? id stage with
  | none => rfl
  | some known =>
      have safe : program.Safe stage (.var id) := (exact id stage known lookup ungoverned).1
      exact absurd doomed ((safe_var_iff ungoverned).mp safe)

-----------------------------------------------------------------------------------------
-- Walks side by side
-----------------------------------------------------------------------------------------

open Classical in
/-- (Walk.Abreast program stage walk other) means that two walks have the same doomed variables
pending, in the same order, and have visited the same ones.
-/
structure Walk.Abreast (program : Program) (stage : Stage) (walk other : Walk) : Prop where
  pending
    : walk.pending.filter (fun id => program.Doomed stage id)
      = other.pending.filter fun id => program.Doomed stage id
  visited : ∀ id, program.Doomed stage id → (id ∈ walk.visited ↔ id ∈ other.visited)

namespace Walk.Abreast

variable {walk middle next : Walk}

theorem refl (walk : Walk) : Abreast program stage walk walk :=
  ⟨rfl, fun _ _ => Iff.rfl⟩

theorem symm (abreast : Abreast program stage walk next) : Abreast program stage next walk :=
  ⟨abreast.pending.symm, fun id doomed => (abreast.visited id doomed).symm⟩

theorem trans (first : Abreast program stage walk middle)
    (second : Abreast program stage middle next)
    : Abreast program stage walk next :=
  ⟨first.pending.trans second.pending,
    fun id doomed => (first.visited id doomed).trans (second.visited id doomed)⟩

/-- What is found does not matter. -/
theorem collect (abreast : Abreast program stage walk next) (found more : List Referent)
    : Abreast program stage { walk with found := found } { next with found := more } :=
  ⟨abreast.pending, abreast.visited⟩

/-- A variable that is not doomed does not matter either. -/
theorem enqueue_spared (walk : Walk) {id : VarId} (spared : ¬ program.Doomed stage id)
    : Abreast program stage walk
        { walk with pending := id :: walk.pending, visited := id :: walk.visited } where
  pending := by simp [spared]
  visited later doomed := by
    have different : later ≠ id := fun same => spared (same ▸ doomed)
    simp [different]

theorem enqueue (abreast : Abreast program stage walk next) (id : VarId)
    : Abreast program stage
        { walk with pending := id :: walk.pending, visited := id :: walk.visited }
        { next with pending := id :: next.pending, visited := id :: next.visited } where
  pending := by simp only [List.filter_cons, abreast.pending]
  visited later doomed := by simp only [List.mem_cons, abreast.visited later doomed]

end Walk.Abreast

/-- Two walks have failed in the same way, or they are abreast. -/
inductive SameTurn (program : Program) (stage : Stage)
    : Except Error Walk → Except Error Walk → Prop
  | failed (error : Error) : SameTurn program stage (.error error) (.error error)
  | done {walk next : Walk} (abreast : walk.Abreast program stage next)
    : SameTurn program stage (.ok walk) (.ok next)

/-- A safe instruction leaves the doomed variables alone. -/
theorem Safe.meet {instruction : Instruction} (safe : program.Safe stage instruction)
    (exact : memo.Exact program) (walk : Walk)
    : ∃ next,
        program.meet memo stage walk instruction = .ok next ∧ walk.Abreast program stage next := by
  cases met : program.meet memo stage walk instruction with
  | error error => exact absurd (meet_eq_error met) (safe error)
  | ok next =>
      refine ⟨next, rfl, ?_⟩
      rcases meet_eq_ok exact met with
        ⟨added, _, same⟩ | ⟨id, read, ungoverned, ⟨_, same⟩ | ⟨_, same⟩⟩
      · exact same ▸ (Walk.Abreast.refl walk).collect _ _
      · exact same ▸ Walk.Abreast.refl next
      · subst instruction next
        exact Walk.Abreast.enqueue_spared walk ((safe_var_iff ungoverned).mp safe)

/-- Safe instructions in a row leave the doomed variables alone, by induction on them. -/
theorem meetAll_of_safe {formula : Formula}
    (safe : ∀ instruction ∈ formula, program.Safe stage instruction) (exact : memo.Exact program)
    (walk : Walk)
    : ∃ next,
        program.meetAll memo stage walk formula = .ok next ∧ walk.Abreast program stage next := by
  induction formula generalizing walk with
  | nil => exact ⟨walk, rfl, .refl walk⟩
  | cons instruction rest ih =>
      obtain ⟨here, later⟩ := List.forall_mem_cons.mp safe
      obtain ⟨middle, met, first⟩ := here.meet exact walk
      obtain ⟨next, done, second⟩ := ih later middle
      refine ⟨next, ?_, first.trans second⟩
      simp only [meetAll, met, done]

/-- Walks that are abreast meet an instruction in the same way. An instruction that is not safe is
followed without the memo.
-/
theorem Walk.Abreast.meet {walk next : Walk} (abreast : walk.Abreast program stage next)
    (exact : memo.Exact program) (otherExact : other.Exact program) (instruction : Instruction)
    : SameTurn program stage (program.meet memo stage walk instruction)
        (program.meet other stage next instruction) := by
  by_cases safe : program.Safe stage instruction
  · obtain ⟨walked, met, first⟩ := safe.meet exact walk
    obtain ⟨nexted, otherMet, second⟩ := safe.meet otherExact next
    rw [met, otherMet]
    exact .done (first.symm.trans (abreast.trans second))
  · cases instruction with
    | var id =>
        cases governs : program.governingKey? stage (.var id) with
        | some key => exact absurd (resolves_of_governed governs).1 safe
        | none =>
            have doomed : program.Doomed stage id :=
              not_not.mp (mt (safe_var_iff governs).mpr safe)
            simp only [Program.meet, governs, find?_eq_none_of_doomed exact governs doomed,
              find?_eq_none_of_doomed otherExact governs doomed, List.contains_iff_mem]
            by_cases visited : id ∈ walk.visited
            · rw [if_pos visited, if_pos ((abreast.visited id doomed).mp visited)]
              exact .done abreast
            · rw [if_neg visited, if_neg (mt (abreast.visited id doomed).mpr visited)]
              exact .done (abreast.enqueue id)
    | _ =>
        simp only [Program.meet]
        split
        · exact .failed _
        · exact .done (abreast.collect _ _)

/-- Walks that are abreast read a definition in the same way, by induction on it. -/
theorem Walk.Abreast.meetAll {walk next : Walk} (abreast : walk.Abreast program stage next)
    (exact : memo.Exact program) (otherExact : other.Exact program) (formula : Formula)
    : SameTurn program stage (program.meetAll memo stage walk formula)
        (program.meetAll other stage next formula) := by
  induction formula generalizing walk next with
  | nil => exact .done abreast
  | cons instruction rest ih =>
      have first := abreast.meet exact otherExact instruction
      unfold Program.meetAll
      generalize program.meet memo stage walk instruction = met at first ⊢
      generalize program.meet other stage next instruction = otherMet at first ⊢
      cases first with
      | failed error => exact .failed error
      | done abreast => exact ih abreast

/-- A walk that fails has a variable pending, and it fails while the definition of that variable is
read or later.
-/
theorem explore_eq_error {steps : Nat} {walk : Walk} {error : Error}
    (failed : program.explore memo stage steps walk = .error error)
    : ∃ left id pending,
        steps = left + 1
        ∧ walk.pending = id :: pending
        ∧ (program.meetAll memo stage { walk with pending := pending }
              ((program.model.definition? id).getD [])).bind (program.explore memo stage left)
          = .error error := by
  cases steps with
  | zero => nomatch failed
  | succ left =>
      unfold explore at failed
      split at failed
      · nomatch failed
      · rename_i id pending waiting
        refine ⟨left, id, pending, rfl, waiting, ?_⟩
        dsimp only at failed
        split at failed <;> rename_i outcome
        · rw [outcome]
          exact failed
        · rw [outcome]
          exact failed

/-- A pending variable that is not doomed is passed without failure. -/
theorem explore_spared (exact : memo.Exact program) {steps : Nat} {walk : Walk} {error : Error}
    (failed : program.explore memo stage steps walk = .error error) {id : VarId}
    {pending : List VarId} (waiting : walk.pending = id :: pending)
    (spared : ¬ program.Doomed stage id)
    : ∃ left next,
        left < steps
        ∧ walk.Abreast program stage next
        ∧ program.explore memo stage left next = .error error := by
  obtain ⟨left, same, rest, rfl, there, turn⟩ := explore_eq_error failed
  cases waiting.symm.trans there
  obtain ⟨next, read, passed⟩ :=
    meetAll_of_safe (safe_of_not_doomed spared) exact { walk with pending := pending }
  have skipped : walk.Abreast program stage { walk with pending := pending } :=
    ⟨by simp [waiting, spared], fun _ _ => Iff.rfl⟩
  rw [read] at turn
  exact ⟨left, next, Nat.lt_succ_self left, skipped.trans passed, turn⟩

/-- Walks that are abreast fail with the same error if both fail, by induction on the turns they
have left together. Variables that are not doomed have their turns at different times, and the
doomed ones have theirs at the same time.
-/
theorem Walk.Abreast.error_eq {walk next : Walk} (abreast : walk.Abreast program stage next)
    (exact : memo.Exact program) (otherExact : other.Exact program) {steps otherSteps : Nat}
    {error otherError : Error} (failed : program.explore memo stage steps walk = .error error)
    (otherFailed : program.explore other stage otherSteps next = .error otherError)
    : error = otherError := by
  induction turns : steps + otherSteps using Nat.strongRecOn
    generalizing walk next steps otherSteps with
  | ind turns ih =>
      obtain ⟨left, id, pending, bound, waiting, turn⟩ := explore_eq_error failed
      obtain ⟨otherLeft, otherId, otherPending, otherBound, otherWaiting, otherTurn⟩ :=
        explore_eq_error otherFailed
      by_cases doomed : program.Doomed stage id
      · by_cases otherDoomed : program.Doomed stage otherId
        · have same := abreast.pending
          simp only [waiting, otherWaiting, List.filter_cons, doomed, otherDoomed, decide_true,
            if_true, List.cons.injEq] at same
          obtain ⟨rfl, rest⟩ := same
          have level : Walk.Abreast program stage { walk with pending := pending }
              { next with pending := otherPending } :=
            ⟨rest, abreast.visited⟩
          have read := level.meetAll exact otherExact ((program.model.definition? id).getD [])
          generalize program.meetAll memo stage _ _ = outcome at turn read
          generalize program.meetAll other stage _ _ = otherOutcome at otherTurn read
          cases read with
          | failed error => exact Except.error.inj (turn.symm.trans otherTurn)
          | done ahead => exact ih _ (by omega) ahead turn otherTurn rfl
        · obtain ⟨fewer, passed, shorter, skipped, later⟩ :=
            explore_spared otherExact otherFailed otherWaiting otherDoomed
          exact ih _ (by omega) (abreast.trans skipped) failed later rfl
      · obtain ⟨fewer, passed, shorter, skipped, later⟩ :=
          explore_spared exact failed waiting doomed
        exact ih _ (by omega) (skipped.symm.trans abreast) later otherFailed rfl

-----------------------------------------------------------------------------------------
-- Formulas
-----------------------------------------------------------------------------------------

/-- Two outcomes of resolution are the same error, or lists of the same referents in some order. -/
inductive SameFindings : Except Error (List Referent) → Except Error (List Referent) → Prop
  | failed (error : Error) : SameFindings (.error error) (.error error)
  | found {found others : List Referent} (permuted : found.Perm others)
    : SameFindings (.ok found) (.ok others)

/-- Outcomes that resolve the same formula are both errors or both lists. -/
theorem Resolves.ok_iff {formula : Formula} {outcome others : Except Error (List Referent)}
    (resolves : program.Resolves stage formula outcome)
    (otherResolves : program.Resolves stage formula others)
    : (∃ found, outcome = .ok found) ↔ ∃ found, others = .ok found := by
  cases outcome with
  | error error =>
      cases others with
      | error _ => simp
      | ok _ => exact absurd resolves (otherResolves.1 error)
  | ok _ =>
      cases others with
      | error error => exact absurd otherResolves (resolves.1 error)
      | ok _ => simp

/-- A walk that fails behind a variable was not spared by the memo. -/
theorem throughDefinition_eq_error {id : VarId} {error : Error}
    (failed : (program.throughDefinition memo stage id).1 = .error error)
    : program.explore memo stage (program.model.mentions + 1) ⟨[id], [id], []⟩
      = .error error := by
  unfold throughDefinition at failed
  split at failed
  · nomatch failed
  · split at failed
    · rename_i outcome
      cases failed
      exact outcome
    · nomatch failed

/-- An instruction that fails does so with one error, whatever exact memo is used. -/
theorem referentsOf_error_eq (exact : memo.Exact program) (otherExact : other.Exact program)
    {instruction : Instruction} {error otherError : Error}
    (failed : (program.referentsOf memo stage instruction).1 = .error error)
    (otherFailed : (program.referentsOf other stage instruction).1 = .error otherError)
    : error = otherError := by
  cases instruction with
  | var id =>
      cases governs : program.governingKey? stage (.var id) with
      | some key =>
          simp only [referentsOf, governs] at failed
          cases failed
      | none =>
          simp only [referentsOf, governs] at failed otherFailed
          apply (Walk.Abreast.refl _).error_eq exact otherExact
          · exact throughDefinition_eq_error failed
          · exact throughDefinition_eq_error otherFailed
  | _ => exact Except.error.inj (failed.symm.trans otherFailed)

/-- A formula fails at its first instruction, or the first is resolved and it fails later. -/
theorem allReferents_cons_eq_error {instruction : Instruction} {rest : Formula} {error : Error}
    (failed : (program.allReferents memo stage (instruction :: rest)).1 = .error error)
    : (program.referentsOf memo stage instruction).1 = .error error
      ∨ (∃ found, (program.referentsOf memo stage instruction).1 = .ok found)
        ∧ (program.allReferents (program.referentsOf memo stage instruction).2 stage rest).1
          = .error error := by
  unfold allReferents at failed
  split at failed <;> rename_i outcome
  · rw [outcome]
    exact Or.inl failed
  · rw [outcome]
    refine Or.inr ⟨⟨_, rfl⟩, ?_⟩
    split at failed <;> rename_i later
    · rw [later]
      exact failed
    · nomatch failed

/-- A formula that fails does so with one error, by induction on the formula. The instructions
before the one that fails may leave different memos.
-/
theorem allReferents_error_eq (exact : memo.Exact program) (otherExact : other.Exact program)
    {formula : Formula} {error otherError : Error}
    (failed : (program.allReferents memo stage formula).1 = .error error)
    (otherFailed : (program.allReferents other stage formula).1 = .error otherError)
    : error = otherError := by
  induction formula generalizing memo other with
  | nil => nomatch failed
  | cons instruction rest ih =>
      obtain ⟨first, kept⟩ := referentsOf_resolves exact stage instruction
      obtain ⟨otherFirst, otherKept⟩ := referentsOf_resolves otherExact stage instruction
      have together := first.ok_iff otherFirst
      rcases allReferents_cons_eq_error failed with here | ⟨passed, later⟩
      · rcases allReferents_cons_eq_error otherFailed with otherHere | ⟨otherPassed, _⟩
        · exact referentsOf_error_eq exact otherExact here otherHere
        · obtain ⟨found, passed⟩ := together.mpr otherPassed
          nomatch here.symm.trans passed
      · rcases allReferents_cons_eq_error otherFailed with otherHere | ⟨_, otherLater⟩
        · obtain ⟨found, otherPassed⟩ := together.mp passed
          nomatch otherHere.symm.trans otherPassed
        · exact ih kept otherKept later otherLater

theorem allReferents_of_referents {formula : Formula} {error : Error}
    (failed : (program.referents memo stage formula).1 = .error error)
    : (program.allReferents memo stage formula).1 = .error error := by
  unfold referents at failed
  split at failed <;> rename_i outcome
  · rw [outcome]
    exact failed
  · nomatch failed

/-- Whatever exact memo is used, a formula fails with the same error or has the same referents. -/
theorem sameFindings_referents (exact : memo.Exact program) (otherExact : other.Exact program)
    (stage : Stage) (formula : Formula)
    : SameFindings (program.referents memo stage formula).1
        (program.referents other stage formula).1 := by
  have resolves := (referents_resolves exact stage formula).1
  have otherResolves := (referents_resolves otherExact stage formula).1
  have together := resolves.ok_iff otherResolves
  cases outcome : (program.referents memo stage formula).1 with
  | error error =>
      cases otherOutcome : (program.referents other stage formula).1 with
      | error otherError =>
          have same := allReferents_error_eq exact otherExact (allReferents_of_referents outcome)
            (allReferents_of_referents otherOutcome)
          exact same ▸ .failed error
      | ok others => simp [outcome, otherOutcome] at together
  | ok found =>
      cases otherOutcome : (program.referents other stage formula).1 with
      | error otherError => simp [outcome, otherOutcome] at together
      | ok others =>
          rw [outcome] at resolves
          rw [otherOutcome] at otherResolves
          apply SameFindings.found
          apply (List.perm_ext_iff_of_nodup ?_ ?_).mpr
          · intro referent
            rw [resolves.2, otherResolves.2]
          · exact nodup_of_referents outcome
          · exact nodup_of_referents otherOutcome

end StepPlan.Program
