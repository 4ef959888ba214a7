import StepPlan.Proofs.Cluster.CallSite
import StepPlan.Proofs.Referent

/-! All forms of a formula refer to the same keys. A variable that expansion looks through keeps no
storage, so no state governs it and resolution looks through it as well. Folding takes away literals
and builtins, and these refer to nothing. So the edges of a state are those of the form of its
formula that joins a cluster.
-/

namespace StepPlan

open Relation

namespace Program

variable {program : Program} {stage : Stage}

-----------------------------------------------------------------------------------------
-- Formulas that refer alike
-----------------------------------------------------------------------------------------

/-- Two formulas fail with the same errors and refer to the same keys. -/
structure Alike (program : Program) (stage : Stage) (formula other : Formula) : Prop where
  fails : ∀ error, program.Fails stage formula error ↔ program.Fails stage other error
  refers : ∀ referent, program.Refers stage formula referent ↔ program.Refers stage other referent

theorem Alike.refl (formula : Formula) : program.Alike stage formula formula :=
  ⟨fun _ => Iff.rfl, fun _ => Iff.rfl⟩

theorem Alike.trans {first second third : Formula} (one : program.Alike stage first second)
    (other : program.Alike stage second third)
    : program.Alike stage first third :=
  ⟨fun error => (one.fails error).trans (other.fails error),
    fun referent => (one.refers referent).trans (other.refers referent)⟩

theorem reads_append {first second : Formula} {instruction : Instruction}
    : program.Reads stage (first ++ second) instruction
      ↔ program.Reads stage first instruction ∨ program.Reads stage second instruction := by
  simp only [Reads, List.mem_append, or_and_right, exists_or]

/-- Formulas refer alike if their parts do. -/
theorem Alike.append {first second other another : Formula}
    (front : program.Alike stage first other) (back : program.Alike stage second another)
    : program.Alike stage (first ++ second) (other ++ another) := by
  constructor
  · intro error
    have one := front.fails error
    have two := back.fails error
    simp only [Fails] at one two
    simp only [Fails, reads_append, or_and_right, exists_or, one, two]
  · intro referent
    have one := front.refers referent
    have two := back.refers referent
    simp only [Refers] at one two
    simp only [Refers, reads_append, or_and_right, exists_or, one, two]

/-- Formulas refer alike if they read the same instructions apart from those that name nothing. -/
theorem alike_of_reads {formula other : Formula}
    (same
      : ∀ instruction,
          program.named stage instruction ≠ .ok []
          → (program.Reads stage formula instruction ↔ program.Reads stage other instruction))
    : program.Alike stage formula other := by
  constructor
  · intro error
    refine exists_congr fun instruction => and_congr_left fun names => same instruction ?_
    rw [names]
    exact nofun
  · intro referent
    refine exists_congr fun instruction => exists_congr fun found => and_congr_left ?_
    rintro ⟨names, member⟩
    refine same instruction fun nothing => ?_
    cases names.symm.trans nothing
    nomatch member

-----------------------------------------------------------------------------------------
-- Expansion
-----------------------------------------------------------------------------------------

/-- A variable that no state governs refers to what its definition refers to. -/
theorem alike_definition {id : VarId} {definition : Formula}
    (ungoverned : program.governingKey? stage (.var id) = none)
    (defined : program.model.definition? id = some definition)
    : program.Alike stage [.var id] definition := by
  apply alike_of_reads
  intro instruction names
  rw [reads_singleton, ReflTransGen.cases_head_iff]
  constructor
  · rintro (same | ⟨inner, ⟨other, sameVar, _, inside⟩, below⟩)
    · subst instruction
      simp [named, ungoverned] at names
    · cases sameVar
      rw [defined] at inside
      exact ⟨inner, inside, below⟩
  · rintro ⟨inner, inside, below⟩
    refine Or.inr ⟨inner, ⟨id, rfl, ungoverned, ?_⟩, below⟩
    rw [defined]
    exact inside

/-- Expansion keeps what a formula refers to if no state governs what it looks through, by induction
on the expansion.
-/
theorem alike_of_expands {persistent : VarId → Bool}
    (ungoverned
      : ∀ id, persistent id = false → program.governingKey? stage (.var id) = none)
    {formula expanded : Formula} (expands : formula.Expands program.model persistent expanded)
    : program.Alike stage formula expanded := by
  induction expands with
  | nil => exact .refl []
  | @keep instruction _ _ _ _ ih => exact (Alike.refl [instruction]).append ih
  | splice abbreviates _ _ insideIh ih =>
      obtain ⟨id, rfl, transient, defined, _⟩ := abbreviates
      have inside := (alike_definition (ungoverned id transient) defined).trans insideIh
      exact inside.append ih

-----------------------------------------------------------------------------------------
-- Folding
-----------------------------------------------------------------------------------------

end Program

/-- Literals and builtins stand for themselves: they refer to nothing and lead to no definition. -/
def Instruction.isInert : Instruction → Bool
  | .number _ | .operator _ | .elementary _ => true
  | _ => false

namespace Piece

/-- Where all pieces are literals, each is one, by induction on the pieces. -/
theorem exists_literal_of_mapM {pieces : List Piece} {literals : List Binary64}
    (found : (pieces.mapM fun piece : Piece => piece.code.literal?) = some literals)
    {piece : Piece} (member : piece ∈ pieces)
    : ∃ literal, piece.code = [.number literal] := by
  induction pieces generalizing literals with
  | nil => nomatch member
  | cons first rest ih =>
      obtain ⟨literal, here, others, later, rfl⟩ := by
        simpa [List.mapM_cons, Option.bind_eq_some_iff] using found
      rcases List.mem_cons.mp member with same | member
      · exact ⟨literal, same ▸ Formula.eq_of_literal? here⟩
      · exact ih later member

/-- An application that is folded is a builtin on literals. -/
theorem isInert_of_fold? {instruction : Instruction} {operands : List Piece} {value : Binary64}
    (folded : fold? instruction operands = some value)
    : instruction.isInert = true
      ∧ ∀ piece ∈ operands, ∀ inner ∈ piece.code, inner.isInert = true := by
  obtain ⟨literals, found, evaluated⟩ := Option.bind_eq_some_iff.mp folded
  constructor
  · cases instruction with
    | operator op => rfl
    | elementary fn => rfl
    | _ => nomatch evaluated
  · intro piece member inner inside
    obtain ⟨literal, code⟩ := exists_literal_of_mapM found member
    rw [code, List.mem_singleton] at inside
    rw [inside]
    rfl

/-- An instruction that is not inert stays in the code of the piece that it goes into. -/
theorem mem_code_combine {instruction inner : Instruction} {operands : List Piece}
    (active : inner.isInert = false)
    (inside : inner = instruction ∨ ∃ piece ∈ operands, inner ∈ piece.code)
    : inner ∈ (combine instruction operands).code := by
  unfold combine
  split
  · rename_i value folded
    obtain ⟨builtin, literals⟩ := isInert_of_fold? folded
    rcases inside with same | ⟨piece, member, code⟩
    · rw [same, builtin] at active
      nomatch active
    · rw [literals piece member inner code] at active
      nomatch active
  · rcases inside with same | ⟨piece, member, code⟩
    · exact List.mem_append_right _ (List.mem_singleton.mpr same)
    · exact List.mem_append_left _ (List.mem_flatMap.mpr ⟨piece, member, code⟩)

/-- A run on pieces keeps every instruction that is not inert, by induction on the formula. -/
theorem mem_code_of_leaves {formula : Formula} {stack result : List Piece} {inner : Instruction}
    (ran : formula.Leaves combine stack result) (active : inner.isInert = false)
    (inside : inner ∈ formula ∨ ∃ piece ∈ stack, inner ∈ piece.code)
    : ∃ piece ∈ result, inner ∈ piece.code := by
  induction formula generalizing stack with
  | nil =>
      obtain rfl := Formula.leaves_nil.mp ran
      exact inside.resolve_left nofun
  | cons instruction rest ih =>
      apply ih (Formula.leaves_cons.mp ran).2
      have taken : (inner = instruction
            ∨ ∃ piece ∈ (stack.take instruction.pops).reverse, inner ∈ piece.code)
          → ∃ piece ∈ combine instruction (stack.take instruction.pops).reverse
              :: stack.drop instruction.pops, inner ∈ piece.code :=
        fun here => ⟨_, List.mem_cons_self, mem_code_combine active here⟩
      rcases inside with listed | ⟨piece, member, code⟩
      · rcases List.mem_cons.mp listed with same | later
        · exact Or.inr (taken (Or.inl same))
        · exact Or.inl later
      · rw [← List.take_append_drop instruction.pops stack, List.mem_append] at member
        rcases member with operand | below
        · exact Or.inr (taken (Or.inr ⟨piece, List.mem_reverse.mpr operand, code⟩))
        · exact Or.inr ⟨piece, List.mem_cons_of_mem _ below, code⟩

end Piece

/-- Folding changes nothing but literals and builtins. -/
theorem Formula.mem_fold_iff {formula folded : Formula} {changed : Bool}
    (done : formula.fold = .ok (folded, changed)) {instruction : Instruction}
    (active : instruction.isInert = false)
    : instruction ∈ folded ↔ instruction ∈ formula := by
  constructor
  · intro member
    have origin : ∀ inner ∈ folded, inner.isInert = true ∨ inner ∈ formula :=
      origin_of_fold done (fun _ => Or.inl rfl) fun _ => Or.inr
    exact (origin instruction member).resolve_left (by simp [active])
  · intro member
    obtain ⟨pieces, ran, rfl, -⟩ := fold_eq_ok_iff.mp done
    obtain ⟨piece, left, code⟩ := Piece.mem_code_of_leaves ran active (Or.inl member)
    exact List.mem_flatMap.mpr ⟨piece, List.mem_reverse.mpr left, code⟩

namespace Program

variable {program : Program} {stage : Stage}

/-- An inert instruction reads itself only, and it names nothing. -/
theorem named_of_isInert {instruction inner : Instruction} (inert : instruction.isInert = true)
    (reads : ReflTransGen (program.Unfolds stage) instruction inner)
    : program.named stage inner = .ok [] := by
  rcases ReflTransGen.cases_head_iff.mp reads with same | ⟨_, ⟨id, sameVar, _⟩, _⟩
  · subst inner
    cases instruction with
    | number | operator | elementary => rfl
    | _ => nomatch inert
  · subst sameVar
    nomatch inert

theorem alike_of_fold {formula folded : Formula} {changed : Bool}
    (done : formula.fold = .ok (folded, changed))
    : program.Alike stage formula folded := by
  apply alike_of_reads
  intro instruction names
  refine exists_congr fun start => and_congr_left fun reads => ?_
  cases inert : start.isInert with
  | true => exact absurd (named_of_isInert inert reads) names
  | false => exact (Formula.mem_fold_iff done inert).symm

-----------------------------------------------------------------------------------------
-- What is found
-----------------------------------------------------------------------------------------

/-- Two outcomes of resolution are both failures, or lists with the same referents. -/
def SameReferents : Except Error (List Referent) → Except Error (List Referent) → Prop
  | .error _, .error _ => True
  | .ok found, .ok other => ∀ referent, referent ∈ found ↔ referent ∈ other
  | _, _ => False

/-- Formulas that refer alike have the same referents, whatever exact memos resolve them. -/
theorem Alike.sameReferents {formula other : Formula} (alike : program.Alike stage formula other)
    {memo otherMemo : Memo} (exact : memo.Exact program) (otherExact : otherMemo.Exact program)
    : SameReferents (program.referents memo stage formula).1
        (program.referents otherMemo stage other).1 := by
  have resolves := (referents_resolves exact stage formula).1
  have otherResolves := (referents_resolves otherExact stage other).1
  cases outcome : (program.referents memo stage formula).1 with
  | error error =>
      rw [outcome] at resolves
      cases otherOutcome : (program.referents otherMemo stage other).1 with
      | error _ => exact trivial
      | ok found =>
          rw [otherOutcome] at otherResolves
          exact otherResolves.1 error ((alike.fails error).mp resolves)
  | ok found =>
      rw [outcome] at resolves
      cases otherOutcome : (program.referents otherMemo stage other).1 with
      | error error =>
          rw [otherOutcome] at otherResolves
          exact resolves.1 error ((alike.fails error).mpr otherResolves)
      | ok others =>
          rw [otherOutcome] at otherResolves
          intro referent
          rw [resolves.2, otherResolves.2, alike.refers]

end Program

-----------------------------------------------------------------------------------------
-- Storage and governing states
-----------------------------------------------------------------------------------------

/-- (registry.Traced) means that the variables of all keys that have states count as written. -/
def Registry.Traced (registry : Registry) : Prop :=
  ∀ key id,
    registry.governing? key ≠ none → key.target = .var id → registry.writes id = true

theorem Registry.Traced.add {registry : Registry} (traced : registry.Traced) (state : State)
    : (registry.add state).2.Traced := by
  intro key id governed target
  have written : (registry.add state).2.writes id = true
      ↔ registry.writes id = true ∨ state.target = .var id := by
    simp only [Registry.add, writes, Lookups.record, Lookups.index, Lookups.write,
      List.contains_iff_mem]
    cases state.target <;> simp [List.mem_insert_iff, eq_comm, or_comm]
  refine written.mpr ?_
  by_cases own : key = ⟨state.target, state.role.view⟩
  · subst key
    exact Or.inr target
  · refine Or.inl (traced key id ?_ target)
    -- Only the key of the state may get a governing state.
    simp only [Registry.add, Registry.governing?, Lookups.record, Lookups.index, Lookups.govern,
      Lookups.governing?, State.key] at governed ⊢
    split at governed
    · exact governed
    · rw [List.lookup_append, List.lookup_cons, beq_false_of_ne own] at governed
      simpa using governed

/-- A variable without storage has no governing state. -/
theorem Program.ungoverned_of_not_persistent {program : Program} (traced : program.registry.Traced)
    {id : VarId} (transient : program.isPersistent id = false) (stage : Stage)
    : program.governingKey? stage (.var id) = none := by
  have unwritten : program.registry.writes id = false := by
    unfold isPersistent at transient
    exact (Bool.or_eq_false_iff.mp transient).2
  have free : ∀ key : Key, key.target = .var id → program.registry.governing? key = none := by
    intro key target
    by_contra governed
    rw [traced key id governed target] at unwritten
    nomatch unwritten
  rw [governingKey?, free (.initial (.var id)) rfl, free (.value (.var id)) rfl]
  simp

namespace Session

/-- Admission traces every variable that is written, by induction on the requests. -/
theorem Admitted.traced {session : Session} (admitted : session.Admitted)
    : session.program.registry.Traced := by
  induction admitted with
  | start options =>
      intro key id governed
      exact absurd rfl governed
  | configure _ _ ih => exact ih
  | remodel _ _ ih => exact ih
  | addState _ added ih =>
      unfold Session.addState at added
      split at added
      · nomatch added
      · cases added
        exact ih.add _
  | sign _ _ ih => exact ih
  | mineFor _ states ih =>
      rw [mineFor_program]
      exact ih
  | buildFor _ _ _ ih => exact ih
  | reset _ ih => exact ih

/-- In an admitted session, a formula that can be expanded has at each stage the same referents as
its expansion and, where that can be folded, as the folded expansion. Hence the referents of a state
are those of every form in which its formula may join a cluster.
-/
theorem referents_forms {session : Session} (admitted : session.Admitted) (stage : Stage)
    {memo other : Memo} (exact : memo.Exact session.program)
    (otherExact : other.Exact session.program)
    : (∀ formula expanded,
        session.program.expand formula = .ok expanded
        → Program.SameReferents (session.program.referents memo stage formula).1
            (session.program.referents other stage expanded).1
          ∧ ∀ folded changed,
              expanded.fold = .ok (folded, changed)
              → Program.SameReferents (session.program.referents memo stage formula).1
                  (session.program.referents other stage folded).1)
      ∧ ∀ id state prepared,
          session.program.registry.get? id = some state
          → session.program.prepare id = .ok prepared
          → ∀ form ∈ prepared.candidates,
              Program.SameReferents (session.program.referents memo stage state.formula).1
                (session.program.referents other stage form).1 := by
  have ungoverned : ∀ id, session.program.isPersistent id = false
      → session.program.governingKey? stage (.var id) = none :=
    fun id transient => Program.ungoverned_of_not_persistent admitted.traced transient stage
  constructor
  · intro formula expanded done
    have alike := Program.alike_of_expands ungoverned (Formula.expands_of_expandWithin done)
    refine ⟨alike.sameReferents exact otherExact, fun folded changed foldedOk => ?_⟩
    exact (alike.trans (Program.alike_of_fold foldedOk)).sameReferents exact otherExact
  · intro id state prepared registered done form listed
    obtain ⟨known, knownAt, expands, forms⟩ := Program.prepare_eq_ok done
    cases registered.symm.trans knownAt
    have alike := Program.alike_of_expands ungoverned expands
    rcases forms form listed with same | ⟨changed, foldedOk⟩
    · rw [same]
      exact alike.sameReferents exact otherExact
    · exact (alike.trans (Program.alike_of_fold foldedOk)).sameReferents exact otherExact

/-- The abbreviation `rate` is a multiple of `x` by another abbreviation, which folds to three. -/
def ratesModel : Model where
  vars :=
    [⟨"x", ⟨false, false, false, true⟩, none⟩, ⟨"y", ⟨false, true, false, false⟩, none⟩,
      ⟨"gain", ⟨false, false, false, false⟩, some [three, .number .nan, .elementary .max]⟩,
      ⟨"rate", ⟨false, false, false, false⟩,
        some [.var (.ofIndex 2), .var (.ofIndex 0), .operator .multiply]⟩]

/-- The variable `x` is integrated and initialized, and `y` reads `rate`. -/
def rates : Session :=
  [⟨.var (.ofIndex 0), .integrated, [], "x"⟩, ⟨.var (.ofIndex 0), .initialization, [five], "x0"⟩,
    ⟨.var (.ofIndex 1), .direct, [.var (.ofIndex 3)], "y"⟩].foldl
    (fun session state => (session.addState state).toOption.elim session Prod.snd)
    { start ⟨2, false⟩ with program := ⟨ratesModel, .empty⟩ }

theorem rates_admitted : rates.Admitted := by
  refine List.foldlRecOn _ _ (.remodel (.start ⟨2, false⟩) ratesModel) ?_
  intro session admitted state _
  cases result : session.addState state with
  | error error => exact admitted
  | ok next => exact .addState admitted result

/-- Expanded and folded, `rate` still refers to the initial value of `x` and to nothing else. -/
theorem referents_forms_rates
    : rates.program.expand [.var (.ofIndex 3)]
        = .ok [three, .number .nan, .elementary .max, .var (.ofIndex 0), .operator .multiply]
      ∧ (rates.program.referents .empty .initial [.var (.ofIndex 3)]).1
        = .ok [⟨.initial (.var (.ofIndex 0)), .var⟩]
      ∧ Program.SameReferents (rates.program.referents .empty .initial [.var (.ofIndex 3)]).1
          (rates.program.referents .empty .initial
            [three, .var (.ofIndex 0), .operator .multiply]).1 := by
  have expands : rates.program.expand [.var (.ofIndex 3)]
      = .ok [three, .number .nan, .elementary .max, .var (.ofIndex 0), .operator .multiply] := by
    cbv
  have folds : Formula.fold
        [three, .number .nan, .elementary .max, .var (.ofIndex 0), .operator .multiply]
      = .ok ([three, .var (.ofIndex 0), .operator .multiply], true) := by
    cbv
  have exact := Memo.exact_empty rates.program
  refine ⟨expands, by cbv, ?_⟩
  exact ((referents_forms rates_admitted .initial exact exact).1 _ _ expands).2 _ _ folds

end Session

end StepPlan
