import Mathlib.Data.List.Chain
import Mathlib.Data.List.Nodup
import Mathlib.Data.List.Perm.Subperm
import Mathlib.Logic.Relation
import StepPlan.Proofs.Formula.Expansion

/-! Circular definitions. Expansion fails exactly where a formula leads to a variable whose
definition leads back to it, and the failure names such a circle. The variables under expansion are
distinct variables of the model, so the bound on nested definitions is never met.
-/

namespace StepPlan

open Relation

variable {model : Model} {persistent : VarId → Bool}

-----------------------------------------------------------------------------------------
-- Variables that mention one another
-----------------------------------------------------------------------------------------

namespace Model

/-- (model.Mentions persistent outer inner) means that the definition of one variable mentions
another, where both keep no storage of their own and have definitions that are not empty.
-/
def Mentions (model : Model) (persistent : VarId → Bool) (outer inner : VarId) : Prop :=
  ∃ definition innerDefinition,
    model.Abbreviates persistent (.var outer) definition
    ∧ .var inner ∈ definition
    ∧ model.Abbreviates persistent (.var inner) innerDefinition

/-- (model.Circular persistent circle) means that the variables of a list are distinct, that each of
them mentions the next one, and that the last one mentions the first.
-/
structure Circular (model : Model) (persistent : VarId → Bool) (circle : List VarId) : Prop where
  distinct : circle.Nodup
  closed
    : ∃ first rest,
        circle = first :: rest ∧ (circle ++ [first]).IsChain (model.Mentions persistent)

theorem eq_var_of_splice? {instruction : Instruction} {id : VarId} {definition : Formula}
    (spliced : model.splice? persistent instruction = some (id, definition))
    : instruction = .var id := by
  cases instruction with
  | var other =>
      simp only [splice?] at spliced
      split at spliced
      · cases spliced
      · obtain ⟨_, _, same⟩ := Option.map_eq_some_iff.mp spliced
        cases same
        rfl
  | _ => cases spliced

theorem splice?_eq_none_iff {instruction : Instruction}
    : model.splice? persistent instruction = none
      ↔ ∀ definition, ¬ model.Abbreviates persistent instruction definition := by
  simp only [Option.eq_none_iff_forall_ne_some, abbreviates_iff, not_exists, Prod.forall]
  exact forall_comm

theorem Abbreviates.index_lt {id : VarId} {definition : Formula}
    (abbreviates : model.Abbreviates persistent (.var id) definition)
    : id.index < model.vars.length := by
  obtain ⟨_, same, _, defined, _⟩ := abbreviates
  cases same
  obtain ⟨found, here, _⟩ := Option.bind_eq_some_iff.mp defined
  exact (List.getElem?_eq_some_iff.mp here).1

end Model

namespace Formula

/-- (formula.LeadsTo model persistent id) means that a variable keeps no storage and has a
definition, and that it occurs in the formula or in a definition that the formula leads to.
-/
def LeadsTo (model : Model) (persistent : VarId → Bool) (formula : Formula) (id : VarId) : Prop :=
  ∃ start definition,
    .var start ∈ formula
    ∧ model.Abbreviates persistent (.var start) definition
    ∧ ReflTransGen (model.Mentions persistent) start id

-----------------------------------------------------------------------------------------
-- Expansion without a bound
-----------------------------------------------------------------------------------------

/-- (Unfolds model persistent chain formula outcome) means that the outcome of expanding a formula,
inside the definitions of the variables on the chain, follows from the outcomes for its parts.
-/
inductive Unfolds (model : Model) (persistent : VarId → Bool)
    : List VarId → Formula → Except Error Formula → Prop
  | nil {chain : List VarId} : Unfolds model persistent chain [] (.ok [])
  | keep {chain : List VarId} {instruction : Instruction} {rest : Formula}
      {outcome : Except Error Formula}
      (direct : ∀ definition, ¬ model.Abbreviates persistent instruction definition)
      (after : Unfolds model persistent chain rest outcome)
      : Unfolds model persistent chain (instruction :: rest) (outcome.map ([instruction] ++ ·))
  | close {chain : List VarId} {id : VarId} {rest definition : Formula}
      (abbreviates : model.Abbreviates persistent (.var id) definition) (again : id ∈ chain)
      : Unfolds model persistent chain (.var id :: rest) (.error (model.definitionCycle chain id))
  | fail {chain : List VarId} {id : VarId} {rest definition : Formula} {error : Error}
      (abbreviates : model.Abbreviates persistent (.var id) definition) (fresh : id ∉ chain)
      (inside : Unfolds model persistent (chain ++ [id]) definition (.error error))
      : Unfolds model persistent chain (.var id :: rest) (.error error)
  | splice {chain : List VarId} {id : VarId} {rest definition inner : Formula}
      {outcome : Except Error Formula}
      (abbreviates : model.Abbreviates persistent (.var id) definition) (fresh : id ∉ chain)
      (inside : Unfolds model persistent (chain ++ [id]) definition (.ok inner))
      (after : Unfolds model persistent chain rest outcome)
      : Unfolds model persistent chain (.var id :: rest) (outcome.map (inner ++ ·))

theorem substitute_cons_of_error {replace : Instruction → Except Error Formula}
    {instruction : Instruction} {error : Error} (failed : replace instruction = .error error)
    (rest : Formula)
    : substitute replace (instruction :: rest) = .error error := by
  simp only [substitute, failed]

theorem substitute_cons_of_ok {replace : Instruction → Except Error Formula}
    {instruction : Instruction} {code : Formula} (replaced : replace instruction = .ok code)
    (rest : Formula)
    : substitute replace (instruction :: rest) = (substitute replace rest).map (code ++ ·) := by
  simp only [substitute, replaced]
  cases substitute replace rest <;> rfl

/-- A chain of distinct variables of the model is no longer than the model. -/
theorem length_le_of_known {chain : List VarId} (distinct : chain.Nodup)
    (known : ∀ id ∈ chain, id.index < model.vars.length)
    : chain.length ≤ model.vars.length := by
  have indices : (chain.map Ident.index).Nodup :=
    distinct.map fun _ _ same => Ident.index_inj.mp same
  have below : chain.map Ident.index ⊆ List.range model.vars.length := by
    intro index member
    obtain ⟨id, inChain, rfl⟩ := List.mem_map.mp member
    exact List.mem_range.mpr (known id inChain)
  simpa using (List.subperm_of_subset indices below).length_le

/-- With room for every variable of the model, the bound on nested definitions is not met. Induction
on the bound and, for each bound, on the formula.
-/
theorem unfolds_expandWithin {depth : Nat} {chain : List VarId} (distinct : chain.Nodup)
    (known : ∀ id ∈ chain, id.index < model.vars.length)
    (room : model.vars.length < depth + chain.length) (formula : Formula)
    : Unfolds model persistent chain formula
        (formula.expandWithin model persistent depth chain) := by
  induction depth generalizing chain formula with
  | zero =>
      have bound := length_le_of_known distinct known
      omega
  | succ depth deeper =>
      unfold expandWithin
      induction formula with
      | nil => exact .nil
      | cons instruction rest ih =>
          cases spliced : model.splice? persistent instruction with
          | none =>
              rw [substitute_cons_of_ok (by rw [spliced])]
              exact .keep (Model.splice?_eq_none_iff.mp spliced) ih
          | some entry =>
              obtain ⟨id, definition⟩ := entry
              have abbreviates := Model.abbreviates_iff.mpr ⟨id, spliced⟩
              obtain rfl := Model.eq_var_of_splice? spliced
              by_cases again : id ∈ chain
              · rw [substitute_cons_of_error (by rw [spliced]; exact if_pos again)]
                exact .close abbreviates again
              · have inside : Unfolds model persistent (chain ++ [id]) definition
                    (definition.expandWithin model persistent depth (chain ++ [id])) := by
                  refine deeper ?_ ?_ ?_ definition
                  · rw [← List.concat_eq_append]
                    exact distinct.concat again
                  · exact List.forall_mem_append.mpr
                      ⟨known, List.forall_mem_singleton.mpr abbreviates.index_lt⟩
                  · simp only [List.length_append, List.length_singleton]
                    omega
                cases outcome : expandWithin model persistent depth (chain ++ [id]) definition with
                | error error =>
                    rw [outcome] at inside
                    rw [substitute_cons_of_error
                      (by rw [spliced]; exact (if_neg again).trans outcome)]
                    exact .fail abbreviates again inside
                | ok inner =>
                    rw [outcome] at inside
                    rw [substitute_cons_of_ok
                      (by rw [spliced]; exact (if_neg again).trans outcome)]
                    exact .splice abbreviates again inside ih

/-- What a formula unfolds to is settled without regard to the bound. -/
theorem unfolds_expand (model : Model) (persistent : VarId → Bool) (formula : Formula)
    : Unfolds model persistent [] formula (formula.expand model persistent) :=
  unfolds_expandWithin List.nodup_nil nofun (Nat.lt_succ_self _) formula

-----------------------------------------------------------------------------------------
-- Failures
-----------------------------------------------------------------------------------------

/-- (Nested model persistent root chain formula) means that the formula is a part of the innermost
definition on the chain, or of the root if the chain is empty, and that each variable of the chain
mentions the next one.
-/
structure Nested (model : Model) (persistent : VarId → Bool) (root : Formula)
    (chain : List VarId) (formula : Formula)
    : Prop where
  distinct : chain.Nodup
  linked : chain.IsChain (model.Mentions persistent)
  mentioned
    : ∀ last ∈ chain.getLast?,
        ∀ inner definition,
          .var inner ∈ formula
          → model.Abbreviates persistent (.var inner) definition
          → model.Mentions persistent last inner
  onChain : ∀ id ∈ chain, root.LeadsTo model persistent id
  inFormula
    : ∀ id definition,
        .var id ∈ formula
        → model.Abbreviates persistent (.var id) definition
        → root.LeadsTo model persistent id

theorem nested_root (root : Formula) : Nested model persistent root [] root where
  distinct := List.nodup_nil
  linked := .nil
  mentioned := nofun
  onChain := nofun
  inFormula _ _ member abbreviates := ⟨_, _, member, abbreviates, .refl⟩

namespace Nested

variable {root : Formula} {chain : List VarId}

theorem rest {instruction : Instruction} {rest : Formula}
    (nested : Nested model persistent root chain (instruction :: rest))
    : Nested model persistent root chain rest where
  distinct := nested.distinct
  linked := nested.linked
  mentioned last isLast inner definition member :=
    nested.mentioned last isLast inner definition (List.mem_cons_of_mem _ member)
  onChain := nested.onChain
  inFormula id definition member := nested.inFormula id definition (List.mem_cons_of_mem _ member)

variable {id : VarId} {rest definition : Formula}

/-- The chain, followed by a variable that its last one mentions, is linked. -/
theorem linked_append (nested : Nested model persistent root chain (.var id :: rest))
    (abbreviates : model.Abbreviates persistent (.var id) definition)
    : (chain ++ [id]).IsChain (model.Mentions persistent) := by
  refine List.isChain_append.mpr ⟨nested.linked, .singleton _, ?_⟩
  intro last isLast next isNext
  cases isNext
  exact nested.mentioned last isLast id definition List.mem_cons_self abbreviates

/-- A variable that is not on the chain is entered. -/
theorem enter (nested : Nested model persistent root chain (.var id :: rest))
    (abbreviates : model.Abbreviates persistent (.var id) definition) (fresh : id ∉ chain)
    : Nested model persistent root (chain ++ [id]) definition := by
  have reached := nested.inFormula id definition List.mem_cons_self abbreviates
  refine {
    distinct := ?_
    linked := nested.linked_append abbreviates
    mentioned := ?_
    onChain := List.forall_mem_append.mpr ⟨nested.onChain, List.forall_mem_singleton.mpr reached⟩
    inFormula := ?_
  }
  · rw [← List.concat_eq_append]
    exact nested.distinct.concat fresh
  · intro last isLast inner innerDefinition member innerAbbreviates
    rw [List.getLast?_concat] at isLast
    cases isLast
    exact ⟨definition, innerDefinition, abbreviates, member, innerAbbreviates⟩
  · intro inner innerDefinition member innerAbbreviates
    obtain ⟨start, startDefinition, startMember, startAbbreviates, path⟩ := reached
    refine ⟨start, startDefinition, startMember, startAbbreviates, path.tail ?_⟩
    exact ⟨definition, innerDefinition, abbreviates, member, innerAbbreviates⟩

/-- A variable that is met again closes a circle: the part of the chain from its first place on. -/
theorem circular (nested : Nested model persistent root chain (.var id :: rest))
    (abbreviates : model.Abbreviates persistent (.var id) definition) (again : id ∈ chain)
    : ∃ circle,
        model.definitionCycle chain id
          = .cycleDetected (circle.map model.name) (circle.map model.name)
        ∧ model.Circular persistent circle
        ∧ ∀ other ∈ circle, root.LeadsTo model persistent other := by
  have linked := nested.linked_append abbreviates
  have distinct := nested.distinct
  have reached := nested.onChain
  obtain ⟨before, after, rfl, fresh⟩ := List.eq_append_cons_of_mem again
  have skipped : (before ++ id :: after).dropWhile (fun outer => decide (outer ≠ id))
      = id :: after := by
    rw [List.dropWhile_append_of_pos, List.dropWhile_cons_of_neg (by simp)]
    intro outer member
    exact decide_eq_true fun same => fresh (same ▸ member)
  refine ⟨id :: after, by rw [Model.definitionCycle, skipped], ⟨?_, id, after, rfl, ?_⟩, ?_⟩
  · exact (List.nodup_append.mp distinct).2.1
  · rw [List.append_assoc] at linked
    exact linked.right_of_append
  · exact fun other member => reached other (List.mem_append_right _ member)

end Nested

/-- A failure names a circle of variables that the root leads to, by induction on the unfolding. -/
theorem Unfolds.circular {root : Formula} {chain : List VarId} {formula : Formula}
    {outcome : Except Error Formula} (unfolds : Unfolds model persistent chain formula outcome)
    (nested : Nested model persistent root chain formula) {error : Error}
    (failed : outcome = .error error)
    : ∃ circle,
        error = .cycleDetected (circle.map model.name) (circle.map model.name)
        ∧ model.Circular persistent circle
        ∧ ∀ id ∈ circle, root.LeadsTo model persistent id := by
  induction unfolds generalizing error with
  | nil => nomatch failed
  | @keep _ _ _ outcome _ _ ih =>
      cases outcome with
      | error => exact ih nested.rest failed
      | ok => nomatch failed
  | close abbreviates again =>
      cases failed
      exact nested.circular abbreviates again
  | fail abbreviates fresh _ ih =>
      cases failed
      exact ih (nested.enter abbreviates fresh) rfl
  | @splice _ _ _ _ _ outcome _ _ _ _ _ ih =>
      cases outcome with
      | error => exact ih nested.rest failed
      | ok => nomatch failed

/-- The first variable of a circle leads back to itself. -/
theorem exists_transGen_of_circular {circle : List VarId}
    (circular : model.Circular persistent circle)
    : ∃ id ∈ circle, TransGen (model.Mentions persistent) id id := by
  obtain ⟨first, rest, rfl, closed⟩ := circular.closed
  obtain ⟨second, more, next⟩ := List.exists_cons_of_ne_nil (List.concat_ne_nil first rest)
  rw [List.cons_append, next, List.isChain_cons_cons] at closed
  refine ⟨first, List.mem_cons_self, TransGen.head' closed.1 ?_⟩
  apply List.relationReflTransGen_of_exists_isChain_cons more closed.2
  simp only [← next, List.getLast_append_singleton]

-----------------------------------------------------------------------------------------
-- Successes
-----------------------------------------------------------------------------------------

/-- Variables of an expanded formula lead nowhere for ever, by induction on the expansion. -/
theorem Expands.acc {formula expanded : Formula}
    (expands : Expands model persistent formula expanded) {id : VarId} {definition : Formula}
    (member : .var id ∈ formula) (abbreviates : model.Abbreviates persistent (.var id) definition)
    : Acc (fun inner outer => model.Mentions persistent outer inner) id := by
  induction expands generalizing id definition with
  | nil => nomatch member
  | keep direct _ ih =>
      rcases List.mem_cons.mp member with rfl | later
      · exact absurd abbreviates (direct definition)
      · exact ih later abbreviates
  | splice spliced _ _ insideIh ih =>
      rcases List.mem_cons.mp member with rfl | later
      · refine Acc.intro id ?_
        intro inner mentions
        obtain ⟨found, innerDefinition, foundAbbreviates, inside, innerAbbreviates⟩ := mentions
        cases foundAbbreviates.unique spliced
        exact insideIh inside innerAbbreviates
      · exact ih later abbreviates

/-- What a formula leads to is on no circle, if the formula can be expanded. -/
theorem Expands.not_transGen {formula expanded : Formula}
    (expands : Expands model persistent formula expanded) {id : VarId}
    (leads : formula.LeadsTo model persistent id)
    : ¬ TransGen (model.Mentions persistent) id id := by
  obtain ⟨start, definition, member, abbreviates, path⟩ := leads
  have founded : Acc (fun inner outer => model.Mentions persistent outer inner) id := by
    have first := expands.acc member abbreviates
    clear abbreviates member
    induction path with
    | refl => exact first
    | tail _ step ih => exact ih.inv step
  clear path
  induction founded with
  | intro id _ ih =>
      intro circle
      obtain ⟨next, step, back⟩ := TransGen.head'_iff.mp circle
      exact ih next step (TransGen.tail' back step)

/-- A formula has one expansion, by induction on the expansion. -/
theorem Expands.unique {formula first second : Formula}
    (one : Expands model persistent formula first) (other : Expands model persistent formula second)
    : first = second := by
  induction one generalizing second with
  | nil => exact other.eq_nil.symm
  | keep direct _ ih =>
      cases other with
      | keep _ after => rw [ih after]
      | splice abbreviates => exact absurd abbreviates (direct _)
  | splice abbreviates _ _ insideIh ih =>
      cases other with
      | keep direct => exact absurd abbreviates (direct _)
      | splice abbreviatesAgain inside after =>
          cases abbreviates.unique abbreviatesAgain
          rw [insideIh inside, ih after]

/-- A formula without abbreviations is left as it is, by induction on the formula. -/
theorem expandWithin_of_direct {formula : Formula}
    (direct : ∀ instruction ∈ formula,
      ∀ definition, ¬ model.Abbreviates persistent instruction definition)
    (depth : Nat) (chain : List VarId)
    : formula.expandWithin model persistent (depth + 1) chain = .ok formula := by
  unfold expandWithin
  induction formula with
  | nil => rfl
  | cons instruction rest ih =>
      obtain ⟨first, later⟩ := List.forall_mem_cons.mp direct
      rw [substitute_cons_of_ok (by rw [Model.splice?_eq_none_iff.mpr first]), ih later]
      rfl

/-- Expansion succeeds exactly with the expansion of the formula. -/
theorem expand_eq_ok_iff {formula expanded : Formula}
    : formula.expand model persistent = .ok expanded
      ↔ Expands model persistent formula expanded := by
  constructor
  · exact expands_of_expandWithin
  · intro expands
    cases outcome : formula.expand model persistent with
    | error error =>
        have unfolds := outcome ▸ unfolds_expand model persistent formula
        obtain ⟨circle, _, circular, reached⟩ := unfolds.circular (nested_root formula) rfl
        obtain ⟨id, member, back⟩ := exists_transGen_of_circular circular
        exact absurd back (expands.not_transGen (reached id member))
    | ok result => rw [(expands_of_expandWithin outcome).unique expands]

/-- Where definitions leave one value each, an expanded formula leaves as many values as the formula
does. Induction on the expansion.
-/
theorem Expands.leaves {formula expanded : Formula}
    (expands : Expands model persistent formula expanded) {reached : VarId → Prop}
    (occurs : ∀ id definition,
      .var id ∈ formula → model.Abbreviates persistent (.var id) definition → reached id)
    (closed : ∀ outer inner, reached outer → model.Mentions persistent outer inner → reached inner)
    (valid : ∀ id definition,
      reached id → model.Abbreviates persistent (.var id) definition → definition.isValid = true)
    {start final : List Unit} (run : formula.Leaves (fun _ _ => ()) start final)
    : expanded.Leaves (fun _ _ => ()) start final := by
  induction expands generalizing start final with
  | nil => exact run
  | keep _ _ ih =>
      obtain ⟨enough, after⟩ := leaves_cons.mp run
      refine leaves_cons.mpr ⟨enough, ih ?_ after⟩
      exact fun id definition member => occurs id definition (List.mem_cons_of_mem _ member)
  | @splice instruction rest expanded definition inner abbreviates _ _ insideIh ih =>
      obtain ⟨_, after⟩ := leaves_cons.mp run
      rw [abbreviates.pops] at after
      have later := ih
        (fun id definition member => occurs id definition (List.mem_cons_of_mem _ member)) after
      have reads := abbreviates
      obtain ⟨id, rfl, _⟩ := reads
      have here := occurs id definition List.mem_cons_self abbreviates
      obtain ⟨_, definitionRun⟩ := leaves_one (valid id definition here abbreviates)
        abbreviates.ne_nil fun _ _ => ()
      have innerRun := insideIh
        (fun innerId innerDefinition member innerAbbreviates =>
          closed id innerId here ⟨_, _, abbreviates, member, innerAbbreviates⟩)
        definitionRun
      exact leaves_append.mpr ⟨() :: start, innerRun.frame start, later⟩

end Formula

end StepPlan
