import StepPlan.Proofs.Formula.Evaluation

/-! Expansion keeps values. Successful expansion is substitution: every instruction either stays
or is replaced by its expanded definition. What is left abbreviates nothing, and since every
definition leaves one value on any stack, it leaves what the original formula leaves.
-/

namespace StepPlan

variable {model : Model} {persistent : VarId → Bool}

/-- Exactly the instructions that stand for a definition are spliced. -/
theorem Model.abbreviates_iff {instruction : Instruction} {definition : Formula}
    : model.Abbreviates persistent instruction definition
      ↔ ∃ id, model.splice? persistent instruction = some (id, definition) := by
  cases instruction with
  | var id =>
      cases stored : persistent id with
      | true => simp [Model.Abbreviates, splice?, stored]
      | false =>
          simp [Model.Abbreviates, splice?, stored, Option.filter_eq_some_iff]
  | _ => simp [Model.Abbreviates, splice?]

namespace Formula

/-- (Expands model persistent formula expanded) means that the second formula is the first one
with every variable that stands for a definition replaced by its expanded definition.
-/
inductive Expands (model : Model) (persistent : VarId → Bool) : Formula → Formula → Prop
  | nil : Expands model persistent [] []
  | keep {instruction : Instruction} {rest expanded : Formula}
      (direct : ∀ definition, ¬ model.Abbreviates persistent instruction definition)
      (after : Expands model persistent rest expanded)
      : Expands model persistent (instruction :: rest) (instruction :: expanded)
  | splice {instruction : Instruction} {rest expanded definition inner : Formula}
      (abbreviates : model.Abbreviates persistent instruction definition)
      (inside : Expands model persistent definition inner)
      (after : Expands model persistent rest expanded)
      : Expands model persistent (instruction :: rest) (inner ++ expanded)

theorem Expands.eq_nil {expanded : Formula} (expands : Expands model persistent [] expanded)
    : expanded = [] := by
  cases expands
  rfl

/-- Substitution that succeeds replaces the first instruction and then the rest. -/
theorem substitute_cons_eq_ok {replace : Instruction → Except Error Formula}
    {instruction : Instruction} {rest result : Formula}
    (done : substitute replace (instruction :: rest) = .ok result)
    : ∃ code codes, replace instruction = .ok code
      ∧ substitute replace rest = .ok codes
      ∧ result = code ++ codes := by
  unfold substitute at done
  split at done
  · nomatch done
  · rename_i code replaced
    split at done
    · nomatch done
    · rename_i codes substituted
      exact ⟨code, codes, replaced, substituted, (Except.ok.inj done).symm⟩

/-- Expansion that succeeds within a chain is substitution, by induction on the depth and, at
each depth, on the formula.
-/
theorem expands_of_expandWithin {depth : Nat} {chain : List VarId} {formula expanded : Formula}
    (done : formula.expandWithin model persistent depth chain = .ok expanded)
    : Expands model persistent formula expanded := by
  induction depth generalizing chain formula expanded with
  | zero => nomatch done
  | succ depth deeper =>
      unfold expandWithin at done
      induction formula generalizing expanded with
      | nil =>
          cases done
          exact .nil
      | cons instruction rest ih =>
          obtain ⟨code, codes, replaced, substituted, rfl⟩ := substitute_cons_eq_ok done
          split at replaced
          · rename_i kept
            cases replaced
            refine .keep ?_ (ih substituted)
            intro definition abbreviates
            obtain ⟨id, spliced⟩ := Model.abbreviates_iff.mp abbreviates
            nomatch kept.symm.trans spliced
          · rename_i id definition spliced
            split at replaced
            · nomatch replaced
            · exact .splice (Model.abbreviates_iff.mpr ⟨id, spliced⟩) (deeper replaced)
                (ih substituted)

/-- What an expanded formula is made of comes from the formula or from definitions, and
abbreviates nothing, by induction on the expansion.
-/
theorem Expands.origin {formula expanded : Formula}
    (expands : Expands model persistent formula expanded) {origin : Instruction → Prop}
    (start : ∀ instruction ∈ formula, origin instruction)
    (closed : ∀ instruction definition, origin instruction
      → model.Abbreviates persistent instruction definition
      → ∀ inner ∈ definition, origin inner)
    : ∀ instruction ∈ expanded, origin instruction
      ∧ ∀ definition, ¬ model.Abbreviates persistent instruction definition := by
  induction expands with
  | nil => exact nofun
  | keep direct _ ih =>
      obtain ⟨first, rest⟩ := List.forall_mem_cons.mp start
      exact List.forall_mem_cons.mpr ⟨⟨first, direct⟩, ih rest⟩
  | splice abbreviates _ _ insideIh ih =>
      obtain ⟨first, rest⟩ := List.forall_mem_cons.mp start
      refine List.forall_mem_append.mpr ⟨?_, ih rest⟩
      exact insideIh (closed _ _ first abbreviates)

end Formula

namespace Program

/-- The instructions that the registered formulas and the definitions they lead to are made of. -/
inductive Uses (program : Program) : Instruction → Prop
  | registered {state : State} {instruction : Instruction}
      (known : state ∈ program.registry.states) (member : instruction ∈ state.formula)
      : Uses program instruction
  | defined {outer inner : Instruction} {definition : Formula} (used : Uses program outer)
      (abbreviates : program.Abbreviates outer definition) (member : inner ∈ definition)
      : Uses program inner

/-- Where definitions are well formed, an expanded formula leaves what the formula leaves. Induction
on the expansion; how many values there are at each point is known from a run on anything else.
-/
theorem runs_of_expands {program : Program} (environment : Environment)
    (routines : ClusterId → Option Formula) {α : Type} {other : Instruction → List α → α}
    {formula expanded : Formula}
    (expands : formula.Expands program.model program.isPersistent expanded)
    (valid : ∀ instruction definition, program.Uses instruction
      → program.Abbreviates instruction definition → definition.isValid = true)
    (used : ∀ instruction ∈ formula, program.Uses instruction)
    (plain : ∀ instruction ∈ expanded, instruction.isPlain = true)
    {start final : List α} (shape : formula.Leaves other start final)
    (arguments stack : List Binary64) (sameLength : stack.length = start.length)
    : ∃ result, expanded.Leaves environment.combine stack result
      ∧ program.Runs environment routines arguments stack formula result
      ∧ result.length = final.length := by
  induction expands generalizing start final arguments stack with
  | nil =>
      obtain rfl := Formula.leaves_nil.mp shape
      exact ⟨stack, Formula.leaves_nil.mpr rfl, .done, sameLength⟩
  | @keep instruction rest expanded direct _ ih =>
      obtain ⟨enough, afterShape⟩ := Formula.leaves_cons.mp shape
      obtain ⟨_, usedRest⟩ := List.forall_mem_cons.mp used
      obtain ⟨plainFirst, plainRest⟩ := List.forall_mem_cons.mp plain
      rw [← sameLength] at enough
      obtain ⟨result, run, runs, length⟩ := ih usedRest plainRest afterShape arguments
        (environment.combine instruction (stack.take instruction.pops).reverse
          :: stack.drop instruction.pops)
        (by simp [sameLength])
      refine ⟨result, Formula.leaves_cons.mpr ⟨enough, run⟩, ?_, length⟩
      refine .value direct enough ?_ runs
      exact environment.value?_eq_combine plainFirst (by simp [enough])
  | @splice instruction rest expanded definition inner abbreviates _ _ insideIh ih =>
      obtain ⟨usedFirst, usedRest⟩ := List.forall_mem_cons.mp used
      obtain ⟨plainInner, plainRest⟩ := List.forall_mem_append.mp plain
      obtain ⟨_, afterShape⟩ := Formula.leaves_cons.mp shape
      -- The definition leaves one value on the empty stack, hence on any.
      obtain ⟨_, insideShape⟩ := Formula.leaves_one
        (valid instruction definition usedFirst abbreviates) abbreviates.ne_nil other
      obtain ⟨values, insideRun, insideRuns, one⟩ := insideIh
        (fun inner member => .defined usedFirst abbreviates member) plainInner insideShape
        [] [] rfl
      obtain ⟨value, rfl⟩ := List.length_eq_one_iff.mp one
      obtain ⟨result, run, runs, length⟩ := ih usedRest plainRest afterShape arguments
        (value :: stack) (by simp [sameLength, abbreviates.pops])
      refine ⟨result, ?_, .definition abbreviates insideRuns runs, length⟩
      exact Formula.leaves_append.mpr ⟨value :: stack, insideRun.frame stack, run⟩

/-- Where definitions are well formed, a well-formed formula has the value that its expansion
leaves.
-/
theorem evaluates_of_expands {program : Program} (environment : Environment)
    (routines : ClusterId → Option Formula) {formula expanded : Formula}
    (expands : formula.Expands program.model program.isPersistent expanded)
    (valid : ∀ instruction definition, program.Uses instruction
      → program.Abbreviates instruction definition → definition.isValid = true)
    (used : ∀ instruction ∈ formula, program.Uses instruction)
    (plain : ∀ instruction ∈ expanded, instruction.isPlain = true)
    (formulaValid : formula.isValid = true) (nonempty : formula ≠ [])
    : ∃ value, expanded.Leaves environment.combine [] [value]
      ∧ program.Evaluates environment routines formula value := by
  obtain ⟨_, shape⟩ := Formula.leaves_one formulaValid nonempty environment.combine
  obtain ⟨values, run, runs, one⟩ :=
    runs_of_expands environment routines expands valid used plain shape [] [] rfl
  obtain ⟨value, rfl⟩ := List.length_eq_one_iff.mp one
  exact ⟨value, run, runs⟩

end Program

end StepPlan
