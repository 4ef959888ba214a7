import StepPlan.Proofs.Referent.Remembering

/-! Definitions that lead to no further definitions. Where every variable in a definition is
governed or has no definition itself, a definition is looked through by reading its own text. What
is found then depends on that text alone, down to the order, and so does what the memo remembers.
-/

namespace StepPlan

namespace Program

/-- (program.Flat) means that no definition that is looked through leads to another one. -/
def Flat (program : Program) : Prop :=
  ∀ stage id,
    program.governingKey? stage (.var id) = none
    → ∀ other,
        .var other ∈ (program.model.definition? id).getD []
        → program.governingKey? stage (.var other) ≠ none
          ∨ (program.model.definition? other).getD [] = []

/-- What the instructions of a formula name by themselves, in order, until one fails. -/
def spelled (program : Program) (stage : Stage) : Formula → Except Error (List Referent)
  | [] => .ok []
  | instruction :: rest =>
      match program.named stage instruction with
      | .error error => .error error
      | .ok found => (program.spelled stage rest).map (found ++ ·)

/-- The instruction leads to no definition that has a text. -/
def Final (program : Program) (stage : Stage) (instruction : Instruction) : Prop :=
  ∀ id,
    instruction = .var id
    → program.governingKey? stage (.var id) ≠ none ∨ (program.model.definition? id).getD [] = []

end Program

/-- (memo.Plain program) means that each entry lists what the definition of its variable spells out.
-/
def Memo.Plain (memo : Memo) (program : Program) : Prop :=
  ∀ id stage known,
    memo.find? id stage = some known
    → program.governingKey? stage (.var id) = none
    → ∃ found,
        program.spelled stage ((program.model.definition? id).getD []) = .ok found
        ∧ known = found.eraseDups

theorem Memo.plain_empty (program : Program) : Memo.empty.Plain program := by
  intro id stage known found
  simp [Memo.find?, Memo.empty] at found

namespace Program

variable {program : Program} {stage : Stage} {memo other : Memo}

/-- (Walk.Idle program walk) means that the definitions of all pending variables are empty. -/
def Walk.Idle (program : Program) (walk : Walk) : Prop :=
  ∀ id ∈ walk.pending, (program.model.definition? id).getD [] = []

/-- A final instruction adds what it names and leaves an idle walk idle. -/
theorem meet_of_final (plain : memo.Plain program) {instruction : Instruction}
    (final : program.Final stage instruction) {walk : Walk} (idle : walk.Idle program)
    : (program.meet memo stage walk instruction).map Walk.found
        = (program.named stage instruction).map (walk.found ++ ·)
      ∧ ∀ next, program.meet memo stage walk instruction = .ok next → next.Idle program := by
  cases instruction with
  | var id =>
      cases governs : program.governingKey? stage (.var id) with
      | some key =>
          simp only [meet, named, governs]
          exact ⟨rfl, fun next met => by cases met; exact idle⟩
      | none =>
          have empty := (final id rfl).resolve_left (not_not.mpr governs)
          simp only [meet, named, governs]
          cases lookup : memo.find? id stage with
          | some known =>
              -- What is remembered of an empty definition is nothing.
              obtain ⟨found, spells, rfl⟩ := plain id stage known lookup governs
              rw [empty] at spells
              cases spells
              exact ⟨rfl, fun next met => by cases met; exact idle⟩
          | none =>
              dsimp only
              split
              · exact ⟨by simp [Except.map], fun next met => by cases met; exact idle⟩
              · refine ⟨by simp [Except.map], fun next met => ?_⟩
                cases met
                exact List.forall_mem_cons.mpr ⟨empty, idle⟩
  | _ =>
      simp only [meet, named]
      split <;> rename_i outcome
      · rw [outcome]
        exact ⟨rfl, fun next met => by cases met⟩
      · rw [outcome]
        exact ⟨rfl, fun next met => by cases met; exact idle⟩

/-- Final instructions add what they spell out, by induction on them. -/
theorem meetAll_of_final (plain : memo.Plain program) {formula : Formula}
    (final : ∀ instruction ∈ formula, program.Final stage instruction) {walk : Walk}
    (idle : walk.Idle program)
    : (program.meetAll memo stage walk formula).map Walk.found
        = (program.spelled stage formula).map (walk.found ++ ·)
      ∧ ∀ next, program.meetAll memo stage walk formula = .ok next → next.Idle program := by
  induction formula generalizing walk with
  | nil =>
      refine ⟨by simp [meetAll, spelled, Except.map], fun next met => ?_⟩
      cases met
      exact idle
  | cons instruction rest ih =>
      obtain ⟨here, later⟩ := List.forall_mem_cons.mp final
      obtain ⟨added, stays⟩ := meet_of_final plain here idle
      unfold meetAll spelled
      cases met : program.meet memo stage walk instruction with
      | error error =>
          rw [met] at added
          cases names : program.named stage instruction with
          | error fault =>
              rw [names] at added
              exact ⟨added, fun next met => by cases met⟩
          | ok found =>
              rw [names] at added
              cases added
      | ok next =>
          rw [met] at added
          cases names : program.named stage instruction with
          | error fault =>
              rw [names] at added
              cases added
          | ok found =>
              rw [names] at added
              obtain ⟨more, ends⟩ := ih later (stays next met)
              refine ⟨more.trans ?_, ends⟩
              have grown : next.found = walk.found ++ found := Except.ok.inj added
              cases program.spelled stage rest with
              | error error => rfl
              | ok others => simp [Except.map, grown]

/-- An idle walk finds nothing more, by induction on the turns. -/
theorem explore_of_idle (memo : Memo) (stage : Stage) (steps : Nat) {walk : Walk}
    (idle : walk.Idle program)
    : program.explore memo stage steps walk = .ok walk.found := by
  induction steps generalizing walk with
  | zero => rfl
  | succ steps ih =>
      unfold explore
      split
      · rfl
      · rename_i id pending waiting
        have first : (program.model.definition? id).getD [] = [] :=
          idle id (waiting ▸ List.mem_cons_self)
        rw [first]
        apply ih
        intro other member
        exact idle other (waiting ▸ List.mem_cons_of_mem _ member)

/-- A walk through a flat definition finds what the definition spells out. -/
theorem explore_of_flat (flat : program.Flat) (plain : memo.Plain program) {id : VarId}
    (ungoverned : program.governingKey? stage (.var id) = none) (steps : Nat)
    : program.explore memo stage (steps + 1) ⟨[id], [id], []⟩
      = program.spelled stage ((program.model.definition? id).getD []) := by
  have final : ∀ instruction ∈ (program.model.definition? id).getD [],
      program.Final stage instruction := by
    intro instruction member other same
    exact flat stage id ungoverned other (same ▸ member)
  have none : Walk.Idle program ⟨[], [id], []⟩ := nofun
  obtain ⟨found, ends⟩ := meetAll_of_final plain final none
  have spells : program.spelled stage ((program.model.definition? id).getD [])
      = (program.meetAll memo stage ⟨[], [id], []⟩
          ((program.model.definition? id).getD [])).map Walk.found := by
    rw [found]
    cases program.spelled stage ((program.model.definition? id).getD []) <;> rfl
  rw [spells]
  unfold explore
  dsimp only
  cases outcome : program.meetAll memo stage ⟨[], [id], []⟩
      ((program.model.definition? id).getD []) with
  | error error => rfl
  | ok next => exact explore_of_idle memo stage steps (ends next outcome)

end Program

theorem Memo.Plain.insert {memo : Memo} {program : Program} (plain : memo.Plain program)
    {id : VarId} {stage : Stage} {found : List Referent}
    (spells : program.spelled stage ((program.model.definition? id).getD []) = .ok found)
    : (memo.insert id stage found.eraseDups).Plain program := by
  intro other otherStage known lookup ungoverned
  rw [Memo.find?, Memo.insert, List.lookup_cons] at lookup
  split at lookup
  · rename_i same
    cases beq_iff_eq.mp same
    cases lookup
    exact ⟨found, spells, rfl⟩
  · exact plain other otherStage known lookup ungoverned

namespace Program

variable {program : Program} {stage : Stage} {memo other : Memo}

/-- Through a flat definition the same is found whether it is remembered or not. -/
theorem throughDefinition_of_flat (flat : program.Flat) (plain : memo.Plain program) {id : VarId}
    (ungoverned : program.governingKey? stage (.var id) = none)
    : (program.throughDefinition memo stage id).1
        = (program.spelled stage ((program.model.definition? id).getD [])).map List.eraseDups
      ∧ (program.throughDefinition memo stage id).2.Plain program := by
  unfold throughDefinition
  split
  · rename_i known lookup
    obtain ⟨found, spells, rfl⟩ := plain id stage known lookup ungoverned
    rw [spells]
    exact ⟨rfl, plain⟩
  · rw [explore_of_flat flat plain ungoverned]
    split <;> rename_i spells
    · rw [spells]
      exact ⟨rfl, plain⟩
    · rw [spells]
      exact ⟨rfl, plain.insert spells⟩

theorem plain_referentsOf (flat : program.Flat) (plain : memo.Plain program) (stage : Stage)
    (instruction : Instruction)
    : (program.referentsOf memo stage instruction).2.Plain program := by
  apply referentsOf_keeps (·.Plain program) ?_ plain
  intro memo stage id plain ungoverned
  exact (throughDefinition_of_flat flat plain ungoverned).2

theorem plain_referents (flat : program.Flat) (plain : memo.Plain program) (stage : Stage)
    (formula : Formula)
    : (program.referents memo stage formula).2.Plain program := by
  apply referents_keeps (·.Plain program) ?_ plain
  intro memo stage id plain ungoverned
  exact (throughDefinition_of_flat flat plain ungoverned).2

theorem referentsOf_eq_of_flat (flat : program.Flat) (plain : memo.Plain program)
    (otherPlain : other.Plain program) (stage : Stage) (instruction : Instruction)
    : (program.referentsOf memo stage instruction).1
      = (program.referentsOf other stage instruction).1 := by
  cases instruction with
  | var id =>
      cases governs : program.governingKey? stage (.var id) with
      | some key => simp only [referentsOf, governs]
      | none =>
          simp only [referentsOf, governs]
          have first := (throughDefinition_of_flat flat plain governs).1
          exact first.trans (throughDefinition_of_flat flat otherPlain governs).1.symm
  | _ => rfl

theorem fst_allReferents_cons (program : Program) (memo : Memo) (stage : Stage)
    (instruction : Instruction) (rest : Formula)
    : (program.allReferents memo stage (instruction :: rest)).1
      = (program.referentsOf memo stage instruction).1.bind fun found =>
          (program.allReferents (program.referentsOf memo stage instruction).2 stage rest).1.map
            (found ++ ·) := by
  rw [allReferents]
  rcases program.referentsOf memo stage instruction with ⟨error | found, later⟩
  · rfl
  · dsimp only
    rcases program.allReferents later stage rest with ⟨error | more, last⟩ <;> rfl

theorem fst_referents (program : Program) (memo : Memo) (stage : Stage) (formula : Formula)
    : (program.referents memo stage formula).1
      = (program.allReferents memo stage formula).1.map List.eraseDups := by
  unfold referents
  rcases program.allReferents memo stage formula with ⟨error | found, later⟩ <;> rfl

/-- Every instruction has the same referents, by induction on the formula. -/
theorem allReferents_eq_of_flat (flat : program.Flat) (plain : memo.Plain program)
    (otherPlain : other.Plain program) (stage : Stage) (formula : Formula)
    : (program.allReferents memo stage formula).1
      = (program.allReferents other stage formula).1 := by
  induction formula generalizing memo other with
  | nil => rfl
  | cons instruction rest ih =>
      have first := referentsOf_eq_of_flat flat plain otherPlain stage instruction
      have later := ih (plain_referentsOf flat plain stage instruction)
        (plain_referentsOf flat otherPlain stage instruction)
      rw [fst_allReferents_cons, fst_allReferents_cons, first, later]

/-- Where definitions are flat, resolution does not depend on what is remembered. -/
theorem referents_eq_of_flat (flat : program.Flat) (plain : memo.Plain program)
    (otherPlain : other.Plain program) (stage : Stage) (formula : Formula)
    : (program.referents memo stage formula).1 = (program.referents other stage formula).1 := by
  rw [fst_referents, fst_referents, allReferents_eq_of_flat flat plain otherPlain]

end Program

end StepPlan
