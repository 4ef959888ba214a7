import StepPlan.Proofs.Formula.Circularity

/-! Expansion without recursion. Definitions are read on a stack of frames, one for each definition
that is entered and not left yet, while the chain lists the variables of these definitions. Reading
ends for every formula, circular definitions or not, and it ends as recursive expansion does, which
is exact.
-/

namespace StepPlan

open Relation

/-- Where an expansion without recursion stands. -/
structure Frames where
  /-- What is left to read, of the innermost definition first and of the formula last. -/
  unread : List Formula
  /-- The variables whose definitions are being read, the outermost first. -/
  chain : List VarId
  /-- What was put out so far. -/
  written : Formula

namespace Frames

variable {model : Model} {persistent : VarId → Bool}

/-- Nothing of the formula is read yet. -/
def start (formula : Formula) : Frames :=
  ⟨[formula], [], []⟩

/-- Reads one instruction or leaves a frame, or stops with an outcome. The frame of the formula
itself has no variable on the chain.
-/
def step (model : Model) (persistent : VarId → Bool) : Frames → Frames ⊕ Except Error Formula
  | ⟨[], _, written⟩ => .inr (.ok written)
  | ⟨[] :: outer, chain, written⟩ =>
      .inl ⟨outer, if outer.isEmpty then chain else chain.dropLast, written⟩
  | ⟨(instruction :: rest) :: outer, chain, written⟩ =>
      match model.splice? persistent instruction with
      | some (id, definition) =>
          if chain.contains id then .inr (.error (model.definitionCycle chain id))
          else .inl ⟨definition :: rest :: outer, chain ++ [id], written⟩
      | none => .inl ⟨rest :: outer, chain, written ++ [instruction]⟩

/-- (Ends model persistent frames outcome) means that finitely many steps lead to the outcome. -/
inductive Ends (model : Model) (persistent : VarId → Bool)
    : Frames → Except Error Formula → Prop
  | stop {frames : Frames} {outcome : Except Error Formula}
      (stops : frames.step model persistent = .inr outcome)
      : Ends model persistent frames outcome
  | go {frames next : Frames} {outcome : Except Error Formula}
      (goes : frames.step model persistent = .inl next)
      (later : Ends model persistent next outcome)
      : Ends model persistent frames outcome

variable {outer : List Formula} {chain : List VarId} {written rest definition : Formula}

theorem step_direct {instruction : Instruction}
    (direct : ∀ definition, ¬ model.Abbreviates persistent instruction definition)
    : step model persistent ⟨(instruction :: rest) :: outer, chain, written⟩
      = .inl ⟨rest :: outer, chain, written ++ [instruction]⟩ := by
  simp only [step, Model.splice?_eq_none_iff.mpr direct]

theorem step_abbreviation {id : VarId}
    (abbreviates : model.Abbreviates persistent (.var id) definition)
    : step model persistent ⟨(.var id :: rest) :: outer, chain, written⟩
      = if id ∈ chain then .inr (.error (model.definitionCycle chain id))
        else .inl ⟨definition :: rest :: outer, chain ++ [id], written⟩ := by
  obtain ⟨found, spliced⟩ := Model.abbreviates_iff.mp abbreviates
  cases Model.eq_var_of_splice? spliced
  simp only [step, spliced, List.contains_iff_mem]

/-- A frame is read as the formula unfolds: a failure ends everything, and otherwise the expanded
formula is put out and the frame is used up. Induction on the unfolding.
-/
theorem ends_of_unfolds {formula : Formula} {outcome result : Except Error Formula}
    (unfolds : formula.Unfolds model persistent chain outcome)
    (failed : ∀ error, outcome = .error error → result = .error error)
    (expanded : ∀ expanded,
      outcome = .ok expanded
      → Ends model persistent ⟨[] :: outer, chain, written ++ expanded⟩ result)
    : Ends model persistent ⟨formula :: outer, chain, written⟩ result := by
  induction unfolds generalizing outer written with
  | nil => simpa using expanded [] rfl
  | keep direct _ ih =>
      refine .go (step_direct direct) (ih ?_ ?_)
      · intro error same
        exact failed error (congrArg (Except.map _) same)
      · intro result same
        rw [List.append_assoc]
        exact expanded _ (congrArg (Except.map _) same)
  | close abbreviates again =>
      rw [failed _ rfl]
      exact .stop ((step_abbreviation abbreviates).trans (if_pos again))
  | fail abbreviates fresh _ ih =>
      refine .go ((step_abbreviation abbreviates).trans (if_neg fresh)) (ih failed ?_)
      exact nofun
  | @splice chain id rest definition inner outcome abbreviates fresh _ _ insideIh ih =>
      refine .go ((step_abbreviation abbreviates).trans (if_neg fresh)) (insideIh nofun ?_)
      intro result same
      cases same
      have left : step model persistent ⟨[] :: rest :: outer, chain ++ [id], written ++ inner⟩
          = .inl ⟨rest :: outer, chain, written ++ inner⟩ := by
        simp only [step, List.isEmpty_cons, Bool.false_eq_true, if_false, List.dropLast_concat]
      refine .go left (ih ?_ ?_)
      · intro error same
        exact failed error (congrArg (Except.map _) same)
      · intro result same
        rw [List.append_assoc]
        exact expanded _ (congrArg (Except.map _) same)

/-- Reading a formula ends, and it ends as its expansion does. -/
theorem ends_expand (model : Model) (persistent : VarId → Bool) (formula : Formula)
    : Ends model persistent (start formula) (formula.expand model persistent) := by
  refine ends_of_unfolds (Formula.unfolds_expand model persistent formula) (fun _ => id) ?_
  intro expanded done
  rw [done]
  exact .go rfl (.stop rfl)

end Frames

namespace Formula

/-- Reading a formula ends, and it ends as its expansion does. Expansion fails exactly if the
formula leads to a variable that leads back to itself, and then it names a circle that the formula
leads to. Otherwise it gives the one formula in which every abbreviation is replaced by its expanded
definition. That formula abbreviates nothing and expands to itself, and it is well formed if the
formula and the definitions that it leads to are.
-/
theorem expand_exact (model : Model) (persistent : VarId → Bool) (formula : Formula)
    : Frames.Ends model persistent (.start formula) (formula.expand model persistent)
      ∧ ((∃ error, formula.expand model persistent = .error error)
          ↔ ∃ id,
              formula.LeadsTo model persistent id
              ∧ TransGen (model.Mentions persistent) id id)
      ∧ (∀ error,
          formula.expand model persistent = .error error
          → ∃ circle,
              error = .cycleDetected (circle.map model.name) (circle.map model.name)
              ∧ model.Circular persistent circle
              ∧ ∀ id ∈ circle, formula.LeadsTo model persistent id)
      ∧ ∀ expanded,
          formula.expand model persistent = .ok expanded
          → (∀ other, Expands model persistent formula other ↔ other = expanded)
            ∧ (∀ instruction ∈ expanded,
                ∀ definition, ¬ model.Abbreviates persistent instruction definition)
            ∧ expanded.expand model persistent = .ok expanded
            ∧ (formula.isValid = true
              → (∀ id definition,
                  formula.LeadsTo model persistent id
                  → model.Abbreviates persistent (.var id) definition
                  → definition.isValid = true)
              → expanded.isValid = true) := by
  have unfolds := unfolds_expand model persistent formula
  refine ⟨Frames.ends_expand model persistent formula, ⟨?_, ?_⟩, ?_, ?_⟩
  · intro fails
    obtain ⟨error, failed⟩ := fails
    obtain ⟨circle, _, circular, reached⟩ := unfolds.circular (nested_root formula) failed
    obtain ⟨id, member, back⟩ := exists_transGen_of_circular circular
    exact ⟨id, reached id member, back⟩
  · intro circle
    obtain ⟨id, leads, back⟩ := circle
    cases outcome : formula.expand model persistent with
    | error error => exact ⟨error, rfl⟩
    | ok expanded => exact absurd back ((expand_eq_ok_iff.mp outcome).not_transGen leads)
  · exact fun error failed => unfolds.circular (nested_root formula) failed
  · intro expanded done
    have expands := expand_eq_ok_iff.mp done
    have direct : ∀ instruction ∈ expanded,
        ∀ definition, ¬ model.Abbreviates persistent instruction definition := by
      intro instruction member
      exact (expands.origin (fun _ _ => trivial) (fun _ _ _ _ _ _ => trivial) instruction member).2
    refine ⟨?_, direct, expandWithin_of_direct direct _ _, ?_⟩
    · intro other
      exact ⟨fun others => others.unique expands, fun same => same ▸ expands⟩
    · intro valid definitions
      obtain ⟨stack, run, few⟩ := isValid_iff.mp valid
      refine isValid_iff.mpr ⟨stack, expands.leaves ?_ ?_ definitions run, few⟩
      · exact fun id definition member abbreviates => ⟨id, definition, member, abbreviates, .refl⟩
      · intro outer inner leads mentions
        obtain ⟨start, definition, member, abbreviates, path⟩ := leads
        exact ⟨start, definition, member, abbreviates, path.tail mentions⟩

/-- An input, its half, the sum of two halves, and two variables that mention one another. -/
def tangledModel : Model where
  vars :=
    [⟨"x", ⟨true, false, false, false⟩, none⟩,
      ⟨"half", ⟨false, false, false, false⟩,
        some [.var (.ofIndex 0), .number ⟨0x4000000000000000⟩, .operator .divide]⟩,
      ⟨"whole", ⟨false, false, false, false⟩,
        some [.var (.ofIndex 1), .var (.ofIndex 1), .operator .add]⟩,
      ⟨"p", ⟨false, false, false, false⟩, some [.var (.ofIndex 4), .operator .negate]⟩,
      ⟨"q", ⟨false, false, false, false⟩,
        some [.var (.ofIndex 2), .var (.ofIndex 3), .operator .add]⟩]

/-- Minus the sum of two halves of the input. -/
def tangledWhole : Formula :=
  [.var (.ofIndex 0), .number ⟨0x4000000000000000⟩, .operator .divide, .var (.ofIndex 0),
    .number ⟨0x4000000000000000⟩, .operator .divide, .operator .add, .operator .negate]

/-- A definition that is used twice is no circle, and what comes of it is well formed. Behind it,
the two variables that mention one another are reported, though the formula mentions only one.
-/
theorem expand_exact_tangled
    : expand tangledModel (· == .ofIndex 0) [.var (.ofIndex 2), .operator .negate]
        = .ok tangledWhole
      ∧ tangledWhole.isValid = true
      ∧ expand tangledModel (· == .ofIndex 0) [.var (.ofIndex 2), .var (.ofIndex 4)]
        = .error (.cycleDetected ["q", "p"] ["q", "p"])
      ∧ ∃ id,
          LeadsTo tangledModel (· == .ofIndex 0) [.var (.ofIndex 2), .var (.ofIndex 4)] id
          ∧ TransGen (tangledModel.Mentions (· == .ofIndex 0)) id id := by
  have expanded : expand tangledModel (· == .ofIndex 0) [.var (.ofIndex 2), .operator .negate]
      = .ok tangledWhole := by
    cbv
  have failed : expand tangledModel (· == .ofIndex 0) [.var (.ofIndex 2), .var (.ofIndex 4)]
      = .error (.cycleDetected ["q", "p"] ["q", "p"]) := by
    cbv
  have checked : ∀ known ∈ tangledModel.vars,
      ∀ definition, known.definition = some definition → definition.isValid = true := by
    have all : (tangledModel.vars.all fun known => known.definition.all isValid) = true := by
      decide
    intro known member definition defined
    have here := List.all_eq_true.mp all known member
    rwa [defined] at here
  refine ⟨expanded, ?_, failed, ?_⟩
  · refine ((expand_exact _ _ _).2.2.2 _ expanded).2.2.2 (by decide) ?_
    intro id definition _ abbreviates
    obtain ⟨_, same, _, defined, _⟩ := abbreviates
    cases same
    obtain ⟨known, here, isDefinition⟩ := Option.bind_eq_some_iff.mp defined
    exact checked known (List.mem_of_getElem? here) definition isDefinition
  · exact (expand_exact _ _ _).2.1.mp ⟨_, failed⟩

end Formula

end StepPlan
