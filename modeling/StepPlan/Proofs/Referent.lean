import Mathlib.Data.List.Nodup
import Mathlib.Data.List.Perm.Subperm
import Mathlib.Logic.Relation
import StepPlan.Referent

/-! Resolution of references is exact. What a formula reads, in its own text or in definitions of
variables that no state governs, is a closure, and its referents are what is named along the way. A
walk through definitions has covered this closure once nothing is pending. What it takes over from
the memo changes nothing in this, as long as the memo itself is exact.
-/

namespace StepPlan

open Relation

namespace Program

/-- The inner instruction stands in the definition of a variable that no state governs, and the
outer one reads that variable.
-/
def Unfolds (program : Program) (stage : Stage) (outer inner : Instruction) : Prop :=
  ∃ id,
    outer = .var id
    ∧ program.governingKey? stage (.var id) = none
    ∧ inner ∈ (program.model.definition? id).getD []

/-- A formula reads an instruction: in its text, or through definitions. -/
def Reads (program : Program) (stage : Stage) (formula : Formula) (instruction : Instruction)
    : Prop :=
  ∃ start ∈ formula, ReflTransGen (program.Unfolds stage) start instruction

/-- The referents that an instruction names by itself. A variable names the key that governs it, if
there is one.
-/
def named (program : Program) (stage : Stage) : Instruction → Except Error (List Referent)
  | .var id => .ok ((program.governingKey? stage (.var id)).toList.map fun key => ⟨key, .var⟩)
  | other => program.direct stage other

/-- A formula refers to what the instructions name that it reads. -/
def Refers (program : Program) (stage : Stage) (formula : Formula) (referent : Referent)
    : Prop :=
  ∃ instruction found,
    program.Reads stage formula instruction
    ∧ program.named stage instruction = .ok found
    ∧ referent ∈ found

/-- A formula fails with the error of an instruction that it reads. -/
def Fails (program : Program) (stage : Stage) (formula : Formula) (error : Error) : Prop :=
  ∃ instruction,
    program.Reads stage formula instruction ∧ program.named stage instruction = .error error

/-- (program.Resolves stage formula outcome) means that the outcome is an error with which the
formula fails, or that it never fails and the outcome lists its referents.
-/
def Resolves (program : Program) (stage : Stage) (formula : Formula)
    : Except Error (List Referent) → Prop
  | .error error => program.Fails stage formula error
  | .ok found =>
      (∀ error, ¬ program.Fails stage formula error)
      ∧ ∀ referent, referent ∈ found ↔ program.Refers stage formula referent

variable {program : Program} {stage : Stage}

-----------------------------------------------------------------------------------------
-- Formulas, instruction by instruction
-----------------------------------------------------------------------------------------

theorem reads_singleton {instruction other : Instruction}
    : program.Reads stage [instruction] other
      ↔ ReflTransGen (program.Unfolds stage) instruction other := by
  simp [Reads]

theorem reads_cons (instruction : Instruction) (rest : Formula) (other : Instruction)
    : program.Reads stage (instruction :: rest) other
      ↔ program.Reads stage [instruction] other ∨ program.Reads stage rest other := by
  simp [Reads]

theorem refers_cons {instruction : Instruction} {rest : Formula} {referent : Referent}
    : program.Refers stage (instruction :: rest) referent
      ↔ program.Refers stage [instruction] referent ∨ program.Refers stage rest referent := by
  simp only [Refers, reads_cons instruction rest, or_and_right, exists_or]

theorem fails_cons {instruction : Instruction} {rest : Formula} {error : Error}
    : program.Fails stage (instruction :: rest) error
      ↔ program.Fails stage [instruction] error ∨ program.Fails stage rest error := by
  simp only [Fails, reads_cons instruction rest, or_and_right, exists_or]

theorem resolves_nil : program.Resolves stage [] (.ok []) := by
  simp [Resolves, Fails, Refers, Reads]

theorem Resolves.append {instruction : Instruction} {rest : Formula} {first more : List Referent}
    (one : program.Resolves stage [instruction] (.ok first))
    (others : program.Resolves stage rest (.ok more))
    : program.Resolves stage (instruction :: rest) (.ok (first ++ more)) := by
  refine ⟨fun error failure => ?_, fun referent => ?_⟩
  · rcases fails_cons.mp failure with here | later
    · exact one.1 error here
    · exact others.1 error later
  · rw [refers_cons, List.mem_append, one.2, others.2]

/-- Only the members of a list of referents matter. -/
theorem Resolves.congr {formula : Formula} {found same : List Referent}
    (resolves : program.Resolves stage formula (.ok found))
    (members : ∀ referent, referent ∈ same ↔ referent ∈ found)
    : program.Resolves stage formula (.ok same) :=
  ⟨resolves.1, fun referent => (members referent).trans (resolves.2 referent)⟩

/-- An instruction that leads to no definition is resolved by what it names. -/
theorem resolves_named {instruction : Instruction}
    (final : ∀ inner, ¬ program.Unfolds stage instruction inner)
    : program.Resolves stage [instruction] (program.named stage instruction) := by
  have only : ∀ other, program.Reads stage [instruction] other ↔ other = instruction := by
    intro other
    rw [reads_singleton, ReflTransGen.cases_head_iff]
    simp [final, eq_comm]
  cases names : program.named stage instruction with
  | error error => exact ⟨instruction, (only _).mpr rfl, names⟩
  | ok found => simp [Resolves, Fails, Refers, only, names]

theorem not_unfolds_of_governed {id : VarId} {key : Key}
    (governs : program.governingKey? stage (.var id) = some key) (inner : Instruction)
    : ¬ program.Unfolds stage (.var id) inner := by
  rintro ⟨other, same, ungoverned, _⟩
  cases same
  rw [governs] at ungoverned
  cases ungoverned

theorem named_of_ne_var {instruction : Instruction} (other : ∀ id, instruction ≠ .var id)
    : program.named stage instruction = program.direct stage instruction := by
  unfold named
  split
  · exact absurd rfl (other _)
  · rfl

theorem resolves_of_ne_var (program : Program) (stage : Stage) {instruction : Instruction}
    (other : ∀ id, instruction ≠ .var id)
    : program.Resolves stage [instruction] (program.direct stage instruction) := by
  rw [← named_of_ne_var other]
  exact resolves_named fun inner ⟨id, same, _⟩ => other id same

theorem resolves_of_governed {id : VarId} {key : Key}
    (governs : program.governingKey? stage (.var id) = some key)
    : program.Resolves stage [.var id] (.ok [⟨key, .var⟩]) := by
  have resolves := resolves_named (not_unfolds_of_governed governs)
  rw [named, governs] at resolves
  exact resolves

/-- A failure is always that of a slot whose state is not registered. -/
theorem Fails.unknownState {formula : Formula} {error : Error}
    (failure : program.Fails stage formula error)
    : ∃ id, error = .unknownState id := by
  obtain ⟨instruction, _, names⟩ := failure
  cases instruction with
  | slot id =>
      simp only [named, direct, Registry.get] at names
      cases known : program.registry.get? id with
      | none =>
          simp only [known] at names
          exact ⟨id, (Except.error.inj names).symm⟩
      | some state => simp [known] at names
  | _ => simp [named, direct] at names

end Program

/-- (memo.Exact program) means that each entry of the memo holds the referents of its variable.
Entries of variables that some state governs are never looked at, so they may hold anything.
-/
def Memo.Exact (memo : Memo) (program : Program) : Prop :=
  ∀ id stage known,
    memo.find? id stage = some known
    → program.governingKey? stage (.var id) = none
    → program.Resolves stage [.var id] (.ok known)

theorem Memo.exact_empty (program : Program) : Memo.empty.Exact program := by
  intro id stage known found
  simp [Memo.find?, Memo.empty] at found

theorem Memo.Exact.insert {memo : Memo} {program : Program} (exact : memo.Exact program)
    {id : VarId} {stage : Stage} {found : List Referent}
    (resolves : program.Resolves stage [.var id] (.ok found))
    : (memo.insert id stage found).Exact program := by
  intro other otherStage known lookup ungoverned
  rw [Memo.find?, Memo.insert, List.lookup_cons] at lookup
  split at lookup
  · rename_i same
    cases beq_iff_eq.mp same
    cases lookup
    exact resolves
  · exact exact other otherStage known lookup ungoverned

namespace Program

variable {program : Program} {stage : Stage} {memo : Memo}

-----------------------------------------------------------------------------------------
-- A walk covers what it has read
-----------------------------------------------------------------------------------------

/-- The walk need not return to an instruction: it reads a variable whose turn has come or will
come, or all its referents are found.
-/
def Walk.Covers (program : Program) (stage : Stage) (walk : Walk) (instruction : Instruction)
    : Prop :=
  (∃ id ∈ walk.visited, instruction = .var id)
  ∨ ((∀ error, ¬ program.Fails stage [instruction] error)
    ∧ ∀ referent, program.Refers stage [instruction] referent → referent ∈ walk.found)

/-- What holds of a walk that started at `origin` and has `rest` of the current definition to
read. Definitions whose turn is over are covered, up to that rest.
-/
structure Walk.Explores (program : Program) (stage : Stage) (origin : VarId) (walk : Walk)
    (rest : Formula)
    : Prop where
  started : origin ∈ walk.visited
  reached
    : ∀ id ∈ walk.visited,
        program.Reads stage [.var origin] (.var id)
        ∧ program.governingKey? stage (.var id) = none
  reading : ∀ instruction ∈ rest, program.Reads stage [.var origin] instruction
  sound : ∀ referent ∈ walk.found, program.Refers stage [.var origin] referent
  covered
    : ∀ id ∈ walk.visited,
        id ∉ walk.pending
        → ∀ instruction ∈ (program.model.definition? id).getD [],
            instruction ∈ rest ∨ walk.Covers program stage instruction
  unique : walk.visited.Nodup
  pendingUnique : walk.pending.Nodup
  pendingVisited : walk.pending ⊆ walk.visited

theorem Walk.Covers.mono {walk next : Walk} {instruction : Instruction}
    (covers : walk.Covers program stage instruction) (visited : walk.visited ⊆ next.visited)
    (found : walk.found ⊆ next.found)
    : next.Covers program stage instruction := by
  rcases covers with ⟨id, member, same⟩ | ⟨safe, all⟩
  · exact Or.inl ⟨id, visited member, same⟩
  · exact Or.inr ⟨safe, fun referent refers => found (all referent refers)⟩

/-- What is referred to by something that is read is referred to. -/
theorem Refers.of_reads {origin instruction : Instruction} {referent : Referent}
    (refers : program.Refers stage [instruction] referent)
    (reads : program.Reads stage [origin] instruction)
    : program.Refers stage [origin] referent := by
  obtain ⟨inner, found, below, names, member⟩ := refers
  rw [reads_singleton] at below reads
  exact ⟨inner, found, reads_singleton.mpr (reads.trans below), names, member⟩

theorem Fails.of_reads {origin instruction : Instruction} {error : Error}
    (failure : program.Fails stage [instruction] error)
    (reads : program.Reads stage [origin] instruction)
    : program.Fails stage [origin] error := by
  obtain ⟨inner, below, names⟩ := failure
  rw [reads_singleton] at below reads
  exact ⟨inner, reads_singleton.mpr (reads.trans below), names⟩

/-- An instruction that a walk meets adds its referents, which the memo may supply, or it is a
variable that no state governs. Such a variable has had its turn, or it becomes pending.
-/
theorem meet_eq_ok (exact : memo.Exact program) {walk next : Walk} {instruction : Instruction}
    (met : program.meet memo stage walk instruction = .ok next)
    : (∃ added,
        program.Resolves stage [instruction] (.ok added)
        ∧ next = { walk with found := walk.found ++ added })
      ∨ ∃ id,
          instruction = .var id
          ∧ program.governingKey? stage (.var id) = none
          ∧ (id ∈ walk.visited ∧ next = walk
            ∨ id ∉ walk.visited
              ∧ next =
                { walk with pending := id :: walk.pending, visited := id :: walk.visited }) := by
  unfold meet at met
  split at met
  · rename_i id
    split at met
    · rename_i key governs
      cases met
      exact Or.inl ⟨_, resolves_of_governed governs, rfl⟩
    · rename_i ungoverned
      split at met
      · rename_i known lookup
        cases met
        exact Or.inl ⟨known, exact id stage known lookup ungoverned, rfl⟩
      · split at met
        · rename_i visited
          cases met
          exact Or.inr ⟨id, rfl, ungoverned, Or.inl ⟨by simpa using visited, rfl⟩⟩
        · rename_i fresh
          cases met
          exact Or.inr ⟨id, rfl, ungoverned, Or.inr ⟨by simpa using fresh, rfl⟩⟩
  · rename_i plain
    split at met
    · cases met
    · rename_i referents direct
      cases met
      have resolves := resolves_of_ne_var program stage plain
      rw [direct] at resolves
      exact Or.inl ⟨referents, resolves, rfl⟩

/-- A walk fails only with an error of the instruction it meets. -/
theorem meet_eq_error {walk : Walk} {instruction : Instruction} {error : Error}
    (met : program.meet memo stage walk instruction = .error error)
    : program.Fails stage [instruction] error := by
  unfold meet at met
  split at met
  · split at met
    · cases met
    · split at met
      · cases met
      · split at met <;> cases met
  · rename_i plain
    split at met
    · rename_i failure direct
      cases met
      exact ⟨instruction, reads_singleton.mpr .refl, (named_of_ne_var plain).trans direct⟩
    · cases met

-----------------------------------------------------------------------------------------
-- Every step keeps what is covered
-----------------------------------------------------------------------------------------

namespace Walk.Explores

variable {origin : VarId} {walk next : Walk} {rest : Formula}

/-- A walk starts with its origin pending and nothing found. -/
theorem start (ungoverned : program.governingKey? stage (.var origin) = none)
    : Explores program stage origin ⟨[origin], [origin], []⟩ [] where
  started := List.mem_singleton_self _
  reached id member := by
    rw [List.mem_singleton.mp member]
    exact ⟨reads_singleton.mpr .refl, ungoverned⟩
  reading := nofun
  sound := nofun
  covered id member absent := absurd member absent
  unique := List.nodup_singleton _
  pendingUnique := List.nodup_singleton _
  pendingVisited := List.Subset.refl _

/-- A pending variable has its turn: its definition is what is to be read next. -/
theorem turn {id : VarId} {pending : List VarId} (explores : Explores program stage origin walk [])
    (waiting : walk.pending = id :: pending)
    : Explores program stage origin { walk with pending := pending }
        ((program.model.definition? id).getD []) := by
  have member : id ∈ walk.visited := explores.pendingVisited (by simp [waiting])
  have unique := explores.pendingUnique
  have visited := explores.pendingVisited
  rw [waiting] at unique visited
  refine {
    started := explores.started
    reached := explores.reached
    reading := ?_
    sound := explores.sound
    covered := ?_
    unique := explores.unique
    pendingUnique := (List.nodup_cons.mp unique).2
    pendingVisited := fun other later => visited (List.mem_cons_of_mem _ later)
  }
  · intro instruction inside
    obtain ⟨reads, ungoverned⟩ := explores.reached id member
    rw [reads_singleton] at reads ⊢
    exact reads.tail ⟨id, rfl, ungoverned, inside⟩
  · intro other known absent instruction inside
    by_cases same : other = id
    · exact Or.inl (same ▸ inside)
    · have finished : other ∉ walk.pending := by
        rw [waiting]
        exact List.not_mem_cons_of_ne_of_not_mem same absent
      rcases explores.covered other known finished instruction inside with none | covers
      · nomatch none
      · exact Or.inr (covers.mono (List.Subset.refl _) (List.Subset.refl _))

/-- Once the first instruction of the rest is covered, it need not be read again. -/
theorem forget {instruction : Instruction}
    (explores : Explores program stage origin walk (instruction :: rest))
    (covers : walk.Covers program stage instruction)
    : Explores program stage origin walk rest :=
  { explores with
    reading := fun other later => explores.reading other (List.mem_cons_of_mem _ later)
    covered := by
      intro id member absent other inside
      rcases explores.covered id member absent other inside with waiting | done
      · rcases List.mem_cons.mp waiting with same | later
        · exact Or.inr (same ▸ covers)
        · exact Or.inl later
      · exact Or.inr done }

/-- Referents of what is read may be added. -/
theorem collect {added : List Referent} (explores : Explores program stage origin walk rest)
    (sound : ∀ referent ∈ added, program.Refers stage [.var origin] referent)
    : Explores program stage origin { walk with found := walk.found ++ added } rest :=
  { explores with
    sound := List.forall_mem_append.mpr ⟨explores.sound, sound⟩
    covered := by
      intro id member absent other inside
      apply (explores.covered id member absent other inside).imp_right
      exact fun covers => covers.mono (List.Subset.refl _) (List.subset_append_left _ _) }

/-- A variable that is read and not governed may become pending once. -/
theorem enqueue {id : VarId} (explores : Explores program stage origin walk rest)
    (reads : program.Reads stage [.var origin] (.var id))
    (ungoverned : program.governingKey? stage (.var id) = none) (fresh : id ∉ walk.visited)
    : Explores program stage origin
        { walk with pending := id :: walk.pending, visited := id :: walk.visited } rest where
  started := List.mem_cons_of_mem _ explores.started
  reached := List.forall_mem_cons.mpr ⟨⟨reads, ungoverned⟩, explores.reached⟩
  reading := explores.reading
  sound := explores.sound
  covered other member absent instruction inside := by
    have older : other ∈ walk.visited := by
      rcases List.mem_cons.mp member with same | older
      · exact absurd (same ▸ List.mem_cons_self) absent
      · exact older
    have finished : other ∉ walk.pending :=
      fun waiting => absent (List.mem_cons_of_mem _ waiting)
    apply (explores.covered other older finished instruction inside).imp_right
    exact fun covers => covers.mono (List.subset_cons_self _ _) (List.Subset.refl _)
  unique := List.nodup_cons.mpr ⟨fresh, explores.unique⟩
  pendingUnique :=
    List.nodup_cons.mpr ⟨fun waiting => fresh (explores.pendingVisited waiting),
      explores.pendingUnique⟩
  pendingVisited := List.cons_subset_cons _ explores.pendingVisited

/-- Meeting the next instruction covers it. A variable that becomes pending is counted as visited,
so the number of turns taken stays the same.
-/
theorem meet (exact : memo.Exact program) {instruction : Instruction}
    (explores : Explores program stage origin walk (instruction :: rest))
    (met : program.meet memo stage walk instruction = .ok next)
    : Explores program stage origin next rest
      ∧ next.visited.length + walk.pending.length
        = walk.visited.length + next.pending.length := by
  have reads := explores.reading instruction List.mem_cons_self
  rcases meet_eq_ok exact met with
    ⟨added, resolves, same⟩ | ⟨id, read, ungoverned, ⟨visited, same⟩ | ⟨fresh, same⟩⟩
  · subst next
    refine ⟨forget (explores.collect fun referent member => ?_) (Or.inr ⟨resolves.1, ?_⟩), rfl⟩
    · exact ((resolves.2 referent).mp member).of_reads reads
    · exact fun referent refers => List.mem_append_right _ ((resolves.2 referent).mpr refers)
  · subst next
    exact ⟨explores.forget (Or.inl ⟨id, visited, read⟩), rfl⟩
  · subst instruction next
    refine ⟨forget (explores.enqueue reads ungoverned fresh) (Or.inl ⟨id, by simp, rfl⟩), ?_⟩
    simp only [List.length_cons]
    omega

/-- Reading a definition covers all of it or fails with an error of the origin, by induction on what
is left to read.
-/
theorem meetAll (exact : memo.Exact program) (explores : Explores program stage origin walk rest)
    : match program.meetAll memo stage walk rest with
      | .error error => program.Fails stage [.var origin] error
      | .ok next =>
          Explores program stage origin next []
          ∧ next.visited.length + walk.pending.length
            = walk.visited.length + next.pending.length := by
  induction rest generalizing walk with
  | nil => exact ⟨explores, rfl⟩
  | cons instruction rest ih =>
      unfold Program.meetAll
      cases met : program.meet memo stage walk instruction with
      | error error =>
          exact (meet_eq_error met).of_reads (explores.reading instruction List.mem_cons_self)
      | ok middle =>
          obtain ⟨further, balance⟩ := explores.meet exact met
          have later := ih further
          dsimp only
          split at later
          · exact later
          · refine ⟨later.1, ?_⟩
            have balanceLater := later.2
            omega

-----------------------------------------------------------------------------------------
-- A walk with nothing pending is complete
-----------------------------------------------------------------------------------------

/-- With nothing pending and nothing left to read, everything that is read from the origin is
covered. By induction on how it is read: a definition is covered because its variable had its turn,
or because all that lies below the variable was taken over at once.
-/
theorem covers_of_reads (explores : Explores program stage origin walk [])
    (done : walk.pending = []) {instruction : Instruction}
    (reads : ReflTransGen (program.Unfolds stage) (.var origin) instruction)
    : walk.Covers program stage instruction := by
  induction reads with
  | refl => exact Or.inl ⟨origin, explores.started, rfl⟩
  | @tail outer inner _ step ih =>
      have below : program.Reads stage [outer] inner := reads_singleton.mpr (.single step)
      rcases ih with ⟨id, visited, same⟩ | ⟨safe, all⟩
      · obtain ⟨other, sameOther, _, inside⟩ := step
        cases same.symm.trans sameOther
        rcases explores.covered id visited (by simp [done]) inner inside with none | covers
        · nomatch none
        · exact covers
      · refine Or.inr ⟨fun error failure => safe error (failure.of_reads below), ?_⟩
        exact fun referent refers => all referent (refers.of_reads below)

theorem resolves (explores : Explores program stage origin walk []) (done : walk.pending = [])
    : program.Resolves stage [.var origin] (.ok walk.found) := by
  have named {instruction : Instruction}
      (reads : program.Reads stage [.var origin] instruction)
      : ∃ found, program.named stage instruction = .ok found ∧ found ⊆ walk.found := by
    have self : program.Reads stage [instruction] instruction := reads_singleton.mpr .refl
    rcases explores.covers_of_reads done (reads_singleton.mp reads) with
      ⟨id, visited, same⟩ | ⟨safe, all⟩
    · subst instruction
      exact ⟨[], by simp [Program.named, (explores.reached id visited).2], List.nil_subset _⟩
    · cases names : program.named stage instruction with
      | error error => exact absurd ⟨instruction, self, names⟩ (safe error)
      | ok found =>
          exact ⟨found, rfl, fun referent member => all referent ⟨_, found, self, names, member⟩⟩
  refine ⟨?_, fun referent => ⟨explores.sound referent, ?_⟩⟩
  · rintro error ⟨instruction, reads, names⟩
    obtain ⟨found, other, _⟩ := named reads
    rw [names] at other
    cases other
  · rintro ⟨instruction, found, reads, names, member⟩
    obtain ⟨same, other, inside⟩ := named reads
    cases names.symm.trans other
    exact inside member

end Walk.Explores

-----------------------------------------------------------------------------------------
-- Enough turns for every variable
-----------------------------------------------------------------------------------------

end Program

/-- The variables that definitions mention, with repetitions. -/
def Model.mentioned (model : Model) : List VarId :=
  model.vars.flatMap fun known => Formula.vars (known.definition.getD [])

theorem Model.length_mentioned (model : Model) : model.mentioned.length ≤ model.mentions := by
  unfold mentioned mentions
  induction model.vars with
  | nil => simp [total]
  | cons known rest ih =>
      have first : (Formula.vars (known.definition.getD [])).length
          ≤ (known.definition.getD []).length := List.length_filterMap_le _ _
      simp only [List.flatMap_cons, List.length_append, total]
      omega

theorem Model.mem_mentioned {model : Model} {id other : VarId}
    (inside : .var id ∈ (model.definition? other).getD [])
    : id ∈ model.mentioned := by
  cases known : model.definition? other with
  | none => simp [known] at inside
  | some definition =>
      rw [known, Option.getD_some] at inside
      obtain ⟨found, position, defined⟩ := Option.bind_eq_some_iff.mp known
      refine List.mem_flatMap.mpr ⟨found, List.mem_of_getElem? position, ?_⟩
      rw [defined, Option.getD_some]
      exact List.mem_filterMap.mpr ⟨_, inside, rfl⟩

namespace Program

variable {program : Program} {stage : Stage} {memo : Memo} {origin : VarId}

/-- Only the origin and mentioned variables are visited, each once. -/
theorem Walk.Explores.length_visited {walk : Walk} {rest : Formula}
    (explores : walk.Explores program stage origin rest)
    : walk.visited.length ≤ program.model.mentions + 1 := by
  have known : walk.visited ⊆ origin :: program.model.mentioned := by
    intro id member
    have reads := reads_singleton.mp (explores.reached id member).1
    rcases ReflTransGen.cases_tail reads with same | ⟨outer, _, other, _, _, inside⟩
    · exact List.mem_cons.mpr (Or.inl (Instruction.var.inj same))
    · exact List.mem_cons_of_mem _ (Model.mem_mentioned inside)
  have bound := (explores.unique.subperm known).length_le
  have mentioned := program.model.length_mentioned
  simp only [List.length_cons] at bound
  omega

/-- A walk with enough turns left resolves its origin, by induction on the turns. The turns taken
are the variables visited and no longer pending, so the turns run out only when nothing is pending.
-/
theorem explore_resolves (exact : memo.Exact program) {steps : Nat} {walk : Walk}
    (explores : walk.Explores program stage origin [])
    (turns : walk.visited.length + steps = walk.pending.length + program.model.mentions + 1)
    : program.Resolves stage [.var origin] (program.explore memo stage steps walk) := by
  induction steps generalizing walk with
  | zero =>
      have bound := explores.length_visited
      exact explores.resolves (List.eq_nil_of_length_eq_zero (by omega))
  | succ steps ih =>
      unfold explore
      split
      · rename_i done
        exact explores.resolves done
      · rename_i id pending waiting
        have read := (explores.turn waiting).meetAll exact
        dsimp only
        cases outcome : program.meetAll memo stage { walk with pending := pending }
            ((program.model.definition? id).getD []) with
        | error error =>
            rw [outcome] at read
            exact read
        | ok next =>
            rw [outcome] at read
            apply ih read.1
            have balance := read.2
            rw [waiting, List.length_cons] at turns
            dsimp only at balance
            omega

-----------------------------------------------------------------------------------------
-- Formulas
-----------------------------------------------------------------------------------------

/-- A variable that no state governs is resolved through its definition, and the memo stays exact.
-/
theorem throughDefinition_resolves (exact : memo.Exact program) {id : VarId}
    (ungoverned : program.governingKey? stage (.var id) = none)
    : program.Resolves stage [.var id] (program.throughDefinition memo stage id).1
      ∧ (program.throughDefinition memo stage id).2.Exact program := by
  unfold throughDefinition
  split
  · rename_i known lookup
    exact ⟨exact id stage known lookup ungoverned, exact⟩
  · have turns : [id].length + (program.model.mentions + 1)
        = [id].length + program.model.mentions + 1 := by omega
    have walked := explore_resolves exact (.start ungoverned) turns
    split <;> rename_i outcome
    · rw [outcome] at walked
      exact ⟨walked, exact⟩
    · rw [outcome] at walked
      have distinct := walked.congr fun referent => List.mem_eraseDups
      exact ⟨distinct, exact.insert distinct⟩

theorem referentsOf_resolves (exact : memo.Exact program) (stage : Stage)
    (instruction : Instruction)
    : program.Resolves stage [instruction] (program.referentsOf memo stage instruction).1
      ∧ (program.referentsOf memo stage instruction).2.Exact program := by
  unfold referentsOf
  split
  · split
    · rename_i key governs
      exact ⟨resolves_of_governed governs, exact⟩
    · rename_i ungoverned
      exact throughDefinition_resolves exact ungoverned
  · rename_i plain
    exact ⟨resolves_of_ne_var program stage plain, exact⟩

/-- Every instruction of a formula is resolved in its turn, by induction on the formula. -/
theorem allReferents_resolves (exact : memo.Exact program) (stage : Stage) (formula : Formula)
    : program.Resolves stage formula (program.allReferents memo stage formula).1
      ∧ (program.allReferents memo stage formula).2.Exact program := by
  induction formula generalizing memo with
  | nil => exact ⟨resolves_nil, exact⟩
  | cons instruction rest ih =>
      obtain ⟨first, exactFirst⟩ := referentsOf_resolves exact stage instruction
      unfold allReferents
      split <;> rename_i outcome
      · rw [outcome] at first exactFirst
        exact ⟨fails_cons.mpr (Or.inl first), exactFirst⟩
      · rw [outcome] at first exactFirst
        obtain ⟨others, exactOthers⟩ := ih exactFirst
        split <;> rename_i outcomeRest
        · rw [outcomeRest] at others exactOthers
          exact ⟨fails_cons.mpr (Or.inr others), exactOthers⟩
        · rw [outcomeRest] at others exactOthers
          exact ⟨first.append others, exactOthers⟩

/-- With an exact memo, resolution finds what a formula refers to, or the error with which it fails,
and leaves an exact memo.
-/
theorem referents_resolves (exact : memo.Exact program) (stage : Stage) (formula : Formula)
    : program.Resolves stage formula (program.referents memo stage formula).1
      ∧ (program.referents memo stage formula).2.Exact program := by
  obtain ⟨resolves, kept⟩ := allReferents_resolves exact stage formula
  unfold referents
  split <;> rename_i outcome
  · rw [outcome] at resolves kept
    exact ⟨resolves, kept⟩
  · rw [outcome] at resolves kept
    exact ⟨resolves.congr fun referent => List.mem_eraseDups, kept⟩

end Program

end StepPlan
