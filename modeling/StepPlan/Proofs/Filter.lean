import Mathlib
import StepPlan.Filter
import StepPlan.Proofs.Distinct
import StepPlan.Proofs.Graph.Queries

/-! Laws of filters. Whatever was asked before and in whichever mode, a question divides the states
of a filter: the answer holds those it selects, and the complement that both filters remember holds
the others. Exchanging a filter twice with its complement changes nothing. Only the two switches
change the mode.
-/

namespace StepPlan.Filter

/-- What can be asked of the states of a filter. -/
inductive Question where
  /-- Whether they depend on one of the others. -/
  | dependsOn (others : List StateId)
  /-- Whether one of the others depends on them. -/
  | dependencyOf (others : List StateId)

namespace Question

/-- The states that a question compares with. -/
def others : Question → List StateId
  | dependsOn others => others
  | dependencyOf others => others

/-- (question.Selects graph state) means that the question holds of the state: it depends on one of
the others, or one of the others depends on it.
-/
def Selects (graph : Graph) : Question → StateId → Prop
  | dependsOn others, state => ∃ other ∈ others, graph.dependsOnState state other = .ok true
  | dependencyOf others, state => ∃ other ∈ others, graph.dependsOnState other state = .ok true

/-- What the graph says of one state. -/
def about (graph : Graph) : Question → StateId → Except Error Bool
  | dependsOn others, state => some? (fun other => graph.dependsOnState state other) others
  | dependencyOf others, state => some? (fun other => graph.dependsOnState other state) others

end Question

/-- A call on a filter. -/
inductive Call where
  | filter
  | unfilter
  | ask (question : Question)
  | not

/-- Puts a question to a filter. -/
def pose (receiver : Filter) (graph : Graph) : Question → Except Error Filter × Filter
  | .dependsOn others => receiver.dependsOn graph others
  | .dependencyOf others => receiver.dependencyOf graph others

/-- The outcome of a call and the filter after it. -/
def serve (receiver : Filter) (graph : Graph) : Call → Except Error Filter × Filter
  | .filter => (.ok receiver.filter, receiver.filter)
  | .unfilter => (.ok receiver.unfilter, receiver.unfilter)
  | .ask question => receiver.pose graph question
  | .not => (.ok receiver.not.1, receiver.not.2)

/-- The filters that come about over a graph: new ones, what calls leave of them, and what calls
return.
-/
inductive Reached (graph : Graph) : Filter → Prop
  | ofStates (states : List StateId) : Reached graph (.ofStates states)
  | all : Reached graph (.all graph)
  | after {receiver : Filter} (earlier : Reached graph receiver) (call : Call)
    : Reached graph (receiver.serve graph call).2
  | answer {receiver answer : Filter} (earlier : Reached graph receiver) (call : Call)
    (answered : (receiver.serve graph call).1 = .ok answer)
    : Reached graph answer

/-- The states that the last question left out. -/
def remembered (receiver : Filter) : List StateId :=
  receiver.complement.getD []

-----------------------------------------------------------------------------------------
-- Questions divide states
-----------------------------------------------------------------------------------------

/-- The states of which a question is given a certain answer, in order. -/
def given (keep : StateId → Except Error Bool) (answer : Bool) (states : List StateId)
    : List StateId :=
  states.filter fun state => (keep state).toOption == some answer

@[simp] theorem mem_given {keep : StateId → Except Error Bool} {answer : Bool}
    {states : List StateId} {state : StateId}
    : state ∈ given keep answer states ↔ state ∈ states ∧ keep state = .ok answer := by
  unfold given
  rw [List.mem_filter]
  cases keep state <;> simp [Except.toOption]

theorem given_sublist (keep : StateId → Except Error Bool) (answer : Bool)
    (states : List StateId)
    : (given keep answer states).Sublist states :=
  List.filter_sublist

/-- A split that succeeds has asked about every state and separates the two answers, by induction on
the states.
-/
theorem split_eq_ok {keep : StateId → Except Error Bool} {states kept dropped : List StateId}
    (success : split keep states = .ok (kept, dropped))
    : kept = given keep true states
      ∧ dropped = given keep false states
      ∧ ∀ state ∈ states, ∃ answer, keep state = .ok answer := by
  induction states generalizing kept dropped with
  | nil =>
      cases success
      simp [given]
  | cons state rest ih =>
      unfold split at success
      cases said : keep state with
      | error _ => simp [said] at success
      | ok answer =>
          rcases later : split keep rest with _ | ⟨restKept, restDropped⟩
          · simp [said, later] at success
          · obtain ⟨rfl, rfl, answered⟩ := ih later
            refine ⟨?_, ?_, List.forall_mem_cons.mpr ⟨⟨answer, said⟩, answered⟩⟩
            all_goals cases answer <;> simp_all [given, Except.toOption]

/-- A split succeeds if every answer does, by induction on the states. -/
theorem exists_split {keep : StateId → Except Error Bool} {states : List StateId}
    (answered : ∀ state ∈ states, ∃ answer, keep state = .ok answer)
    : ∃ parts, split keep states = .ok parts := by
  induction states with
  | nil => exact ⟨_, rfl⟩
  | cons state rest ih =>
      obtain ⟨⟨answer, said⟩, later⟩ := List.forall_mem_cons.mp answered
      obtain ⟨parts, success⟩ := ih later
      simp [split, said, success]

/-- Asking in order up to the first yes finds out whether there is one, by induction on the states
asked about.
-/
theorem some?_eq_ok {question : StateId → Except Error Bool} {others : List StateId}
    {answer : Bool} (success : some? question others = .ok answer)
    : answer = true ↔ ∃ other ∈ others, question other = .ok true := by
  induction others with
  | nil =>
      cases success
      simp
  | cons other rest ih =>
      unfold some? at success
      split at success
      · cases success
      · rename_i yes
        cases success
        simp [yes]
      · rename_i no
        simp [ih success, no]

theorem exists_some? {question : StateId → Except Error Bool} {others : List StateId}
    (answered : ∀ other ∈ others, ∃ answer, question other = .ok answer)
    : ∃ answer, some? question others = .ok answer := by
  induction others with
  | nil => exact ⟨_, rfl⟩
  | cons other rest ih =>
      obtain ⟨⟨answer, said⟩, later⟩ := List.forall_mem_cons.mp answered
      cases answer with
      | false => simpa [some?, said] using ih later
      | true => exact ⟨true, by simp [some?, said]⟩

namespace Question

/-- What the graph says of a state, if it says anything, is whether the question selects it. -/
theorem about_eq_ok {graph : Graph} {question : Question} {state : StateId} {answer : Bool}
    (success : question.about graph state = .ok answer)
    : answer = true ↔ question.Selects graph state := by
  cases question with
  | dependsOn others => exact some?_eq_ok success
  | dependencyOf others => exact some?_eq_ok success

/-- The graph can say something of every state if it knows it and the others. -/
theorem exists_about {graph : Graph} {question : Question} {state : StateId}
    (known : graph.entry? state ≠ none)
    (othersKnown : ∀ other ∈ question.others, graph.entry? other ≠ none)
    : ∃ answer, question.about graph state = .ok answer := by
  have said : ∀ one other : StateId, graph.entry? one ≠ none → graph.entry? other ≠ none
      → ∃ answer, graph.dependsOnState one other = .ok answer := by
    intro one other oneKnown otherKnown
    obtain ⟨entry, entryAt⟩ := Option.ne_none_iff_exists'.mp oneKnown
    obtain ⟨otherEntry, otherAt⟩ := Option.ne_none_iff_exists'.mp otherKnown
    simp [Graph.dependsOnState, Graph.entry, entryAt, otherAt]
  cases question with
  | dependsOn others =>
      exact exists_some? fun other member => said state other known (othersKnown other member)
  | dependencyOf others =>
      exact exists_some? fun other member => said other state (othersKnown other member) known

end Question

-----------------------------------------------------------------------------------------
-- What a question does to a filter
-----------------------------------------------------------------------------------------

/-- No complement and an empty one are the same. -/
@[simp] theorem getD_toComplement (states : List StateId)
    : (toComplement states).getD [] = states := by
  unfold toComplement
  cases states <;> rfl

theorem pose_eq (receiver : Filter) (graph : Graph) (question : Question)
    : receiver.pose graph question = receiver.ask (question.about graph) := by
  cases question <;> rfl

/-- A question either fails and leaves the filter as it was, or it divides the states. Then both
filters remember what it leaves out, and the receiver keeps its states unless it is in place.
-/
theorem ask_cases (receiver : Filter) (keep : StateId → Except Error Bool)
    : (∃ error, receiver.ask keep = (.error error, receiver)
        ∧ ¬ ∀ state ∈ receiver.states, ∃ said, keep state = .ok said)
      ∨ ∃ answer, receiver.ask keep
            = (.ok answer,
                { answer with
                  states := if receiver.inPlace then answer.states else receiver.states })
          ∧ answer
            = ⟨given keep true receiver.states, toComplement (given keep false receiver.states),
                receiver.inPlace⟩
          ∧ ∀ state ∈ receiver.states, ∃ said, keep state = .ok said := by
  unfold ask
  rcases parts : split keep receiver.states with error | ⟨kept, dropped⟩
  · refine .inl ⟨error, rfl, ?_⟩
    intro answered
    obtain ⟨_, success⟩ := exists_split answered
    cases parts.symm.trans success
  · obtain ⟨rfl, rfl, answered⟩ := split_eq_ok parts
    refine .inr ⟨_, ?_, rfl, answered⟩
    cases mode : receiver.inPlace <;> simp

/-- What a question that succeeds leaves and returns. -/
theorem ask_eq_ok {receiver answer : Filter} {keep : StateId → Except Error Bool}
    (success : (receiver.ask keep).1 = .ok answer)
    : (∀ state ∈ receiver.states, ∃ said, keep state = .ok said)
      ∧ answer
        = ⟨given keep true receiver.states, toComplement (given keep false receiver.states),
            receiver.inPlace⟩
      ∧ (receiver.ask keep).2
        = { answer with
            states := if receiver.inPlace then answer.states else receiver.states } := by
  rcases receiver.ask_cases keep with ⟨error, failed, _⟩ | ⟨found, same, built, answered⟩
  · simp [failed] at success
  · rw [same, Except.ok.injEq] at success
    subst success
    exact ⟨answered, built, by rw [same]⟩

/-- A question that fails leaves the filter as it was. -/
theorem ask_eq_error {receiver : Filter} {keep : StateId → Except Error Bool} {error : Error}
    (failure : (receiver.ask keep).1 = .error error)
    : (receiver.ask keep).2 = receiver := by
  rcases receiver.ask_cases keep with ⟨_, failed, _⟩ | ⟨found, same, _, _⟩
  · rw [failed]
  · simp [same] at failure

/-- A question succeeds if it can be answered for every state. -/
theorem exists_ask {receiver : Filter} {keep : StateId → Except Error Bool}
    (answered : ∀ state ∈ receiver.states, ∃ answer, keep state = .ok answer)
    : ∃ answer, (receiver.ask keep).1 = .ok answer := by
  rcases receiver.ask_cases keep with ⟨_, _, incomplete⟩ | ⟨found, same, _, _⟩
  · exact absurd answered incomplete
  · exact ⟨found, by rw [same]⟩

/-- The outcome of a question, for the filter it was put to and the filter afterwards. -/
structure Answered (graph : Graph) (receiver : Filter) (question : Question)
    (answer after : Filter) : Prop where
  selects
    : ∀ state, state ∈ answer.states ↔ state ∈ receiver.states ∧ question.Selects graph state
  covers : ∀ state, state ∈ receiver.states ↔ state ∈ answer.states ∨ state ∈ answer.remembered
  disjoint : answer.states.Disjoint answer.remembered
  narrows : after.states = if receiver.inPlace then answer.states else receiver.states
  /-- Whatever mode the filter is switched to in between, the next negation gives the rest. -/
  excludes
    : ∀ mode state,
        state ∈ ({ after with inPlace := mode } : Filter).not.1.states
        ↔ state ∈ receiver.states ∧ state ∉ answer.states

theorem states_not (receiver : Filter) : receiver.not.1.states = receiver.remembered := by
  unfold Filter.not
  dsimp only
  split <;> rfl

/-- A question that succeeds is answered by what the graph says of the states. -/
theorem answered_of_ask {graph : Graph} {receiver answer : Filter} {question : Question}
    (success : (receiver.ask (question.about graph)).1 = .ok answer)
    : Answered graph receiver question answer (receiver.ask (question.about graph)).2 := by
  obtain ⟨complete, rfl, after⟩ := ask_eq_ok success
  rw [after]
  have selected : ∀ state ∈ receiver.states,
      question.about graph state = .ok true ↔ question.Selects graph state := by
    intro state member
    obtain ⟨answer, said⟩ := complete state member
    rw [said, Except.ok.injEq]
    exact Question.about_eq_ok said
  have rejected : ∀ state ∈ receiver.states,
      question.about graph state = .ok false ↔ ¬ question.about graph state = .ok true := by
    intro state member
    obtain ⟨answer, said⟩ := complete state member
    cases answer <;> simp [said]
  refine ⟨?_, ?_, ?_, rfl, ?_⟩
  · intro state
    exact mem_given.trans (and_congr_right (selected state))
  · intro state
    simp only [remembered, getD_toComplement, mem_given]
    have either := rejected state
    tauto
  · intro state inside left
    simp only [remembered, getD_toComplement, mem_given] at inside left
    exact (rejected state left.1).mp left.2 inside.2
  · intro mode state
    simp only [states_not, remembered, getD_toComplement, mem_given]
    have either := rejected state
    tauto

-----------------------------------------------------------------------------------------
-- What every call keeps
-----------------------------------------------------------------------------------------

/-- The states and the complement of a filter are sets, listed in ascending order, and there is no
empty complement.
-/
structure WellFormed (receiver : Filter) : Prop where
  ascending : receiver.states.Pairwise (· < ·)
  complement
    : ∀ states, receiver.complement = some states → states.Pairwise (· < ·) ∧ states ≠ []

theorem ascending_sorted (states : List StateId) : (sorted states).Pairwise (· < ·) := by
  have ordered : (states.mergeSort fun first second => decide (first ≤ second)).Pairwise
      fun first second => decide (first ≤ second) = true := by
    apply List.pairwise_mergeSort
    · intro first second third
      simp only [decide_eq_true_eq]
      exact Nat.le_trans
    · intro first second
      simp only [Bool.or_eq_true, decide_eq_true_eq]
      exact Nat.le_total first.index second.index
  have distinct := nodup_eraseDups (states.mergeSort fun first second => decide (first ≤ second))
  refine ((ordered.sublist (eraseDups_sublist _)).and distinct).imp ?_
  intro first second both
  exact Nat.lt_of_le_of_ne (of_decide_eq_true both.1) (mt Ident.index_inj.mp both.2)

theorem wellFormed_ofStates (states : List StateId) : (ofStates states).WellFormed :=
  ⟨ascending_sorted states, by simp [ofStates]⟩

/-- A set that is remembered is well formed as a complement, since it is not kept when empty. -/
theorem wellFormed_of_toComplement {states left : List StateId}
    (ascending : states.Pairwise (· < ·)) (leftAscending : left.Pairwise (· < ·)) (mode : Bool)
    : (⟨states, toComplement left, mode⟩ : Filter).WellFormed := by
  refine ⟨ascending, ?_⟩
  intro found foundAt
  unfold toComplement at foundAt
  split at foundAt
  · cases foundAt
  · rename_i inhabited
    cases foundAt
    exact ⟨leftAscending, by simpa using inhabited⟩

theorem WellFormed.remembered {receiver : Filter} (wellFormed : receiver.WellFormed)
    : receiver.remembered.Pairwise (· < ·) := by
  unfold Filter.remembered
  cases complement : receiver.complement with
  | none => exact .nil
  | some states => exact (wellFormed.complement states complement).1

/-- Negation gives well-formed filters. -/
theorem WellFormed.not {receiver : Filter} (wellFormed : receiver.WellFormed)
    : receiver.not.1.WellFormed ∧ receiver.not.2.WellFormed := by
  unfold Filter.not
  dsimp only
  split
  · have swapped :=
      wellFormed_of_toComplement wellFormed.remembered wellFormed.ascending receiver.inPlace
    exact ⟨swapped, swapped⟩
  · exact ⟨⟨wellFormed.remembered, by simp⟩, wellFormed⟩

/-- Questions give well-formed filters, since they keep the order of the states. -/
theorem WellFormed.ask {receiver : Filter} (wellFormed : receiver.WellFormed)
    (keep : StateId → Except Error Bool)
    : (receiver.ask keep).2.WellFormed
      ∧ ∀ answer, (receiver.ask keep).1 = .ok answer → answer.WellFormed := by
  have ascending (answer : Bool) : (given keep answer receiver.states).Pairwise (· < ·) :=
    wellFormed.ascending.sublist (given_sublist keep answer receiver.states)
  rcases receiver.ask_cases keep with ⟨error, failed, _⟩ | ⟨found, same, rfl, _⟩
  · rw [failed]
    exact ⟨wellFormed, by simp⟩
  · rw [same]
    refine ⟨wellFormed_of_toComplement ?_ (ascending false) _, ?_⟩
    · split
      · exact ascending true
      · exact wellFormed.ascending
    · intro answer returned
      cases returned
      exact wellFormed_of_toComplement (ascending true) (ascending false) _

/-- What a call leaves and what it returns is well formed. -/
theorem WellFormed.serve {receiver : Filter} (wellFormed : receiver.WellFormed) (graph : Graph)
    (call : Call)
    : (receiver.serve graph call).2.WellFormed
      ∧ ∀ answer, (receiver.serve graph call).1 = .ok answer → answer.WellFormed := by
  have switched (mode : Bool) : ({ receiver with inPlace := mode } : Filter).WellFormed :=
    ⟨wellFormed.ascending, wellFormed.complement⟩
  cases call with
  | filter => exact ⟨switched true, fun answer same => Except.ok.inj same ▸ switched true⟩
  | unfilter => exact ⟨switched false, fun answer same => Except.ok.inj same ▸ switched false⟩
  | not => exact ⟨wellFormed.not.2, fun answer same => Except.ok.inj same ▸ wellFormed.not.1⟩
  | ask question =>
      rw [Filter.serve, pose_eq]
      exact wellFormed.ask _

/-- Filters are always well formed, by induction on how they come about. -/
theorem Reached.wellFormed {graph : Graph} {receiver : Filter} (reached : Reached graph receiver)
    : receiver.WellFormed := by
  induction reached with
  | ofStates states => exact wellFormed_ofStates states
  | all => exact wellFormed_ofStates graph.states
  | after _ call ih => exact (ih.serve graph call).1
  | answer _ call answered ih => exact (ih.serve graph call).2 _ answered

/-- In place, a second negation undoes the first one. It takes that an empty complement is never
kept, since it would come back as none.
-/
theorem WellFormed.not_not {receiver : Filter} (wellFormed : receiver.WellFormed)
    (inPlace : receiver.inPlace = true)
    : receiver.not.2.not.2 = receiver := by
  obtain ⟨states, complement, mode⟩ := receiver
  cases inPlace
  have kept : toComplement (complement.getD []) = complement := by
    cases complement with
    | none => rfl
    | some left => simp [toComplement, (wellFormed.complement left rfl).2]
  simp [Filter.not, kept]

-----------------------------------------------------------------------------------------
-- The mode
-----------------------------------------------------------------------------------------

/-- The mode that a call leaves a filter in, given the mode it was in. -/
def Call.modeAfter : Call → Bool → Bool
  | .filter, _ => true
  | .unfilter, _ => false
  | .ask _, mode => mode
  | .not, mode => mode

/-- What a call leaves and what it returns are in the same mode, which only the switches change. -/
theorem inPlace_serve (receiver : Filter) (graph : Graph) (call : Call)
    : (receiver.serve graph call).2.inPlace = call.modeAfter receiver.inPlace
      ∧ ∀ answer,
          (receiver.serve graph call).1 = .ok answer
          → answer.inPlace = call.modeAfter receiver.inPlace := by
  cases call with
  | filter => exact ⟨rfl, fun answer same => Except.ok.inj same ▸ rfl⟩
  | unfilter => exact ⟨rfl, fun answer same => Except.ok.inj same ▸ rfl⟩
  | not =>
      cases mode : receiver.inPlace <;> simp [serve, Filter.not, Call.modeAfter, mode]
  | ask question =>
      rw [serve, pose_eq]
      rcases receiver.ask_cases (question.about graph) with
        ⟨error, failed, _⟩ | ⟨found, same, rfl, _⟩
      · simp [failed, Call.modeAfter]
      · simp [same, Call.modeAfter]

-----------------------------------------------------------------------------------------
-- The laws
-----------------------------------------------------------------------------------------

/-- The laws of filters. A question that succeeds divides the states, one that fails changes
nothing, and it succeeds at least when all states are known. In place, negating twice changes
nothing. The two switches set and clear the mode and change nothing else, questions and negations
keep it, and what a call returns is in the mode that the call leaves.
-/
theorem laws_of_reached {graph : Graph} {receiver : Filter} (reached : Reached graph receiver)
    : receiver.WellFormed
      ∧ (∀ question,
          (∀ answer,
            (receiver.serve graph (.ask question)).1 = .ok answer
            → Answered graph receiver question answer (receiver.serve graph (.ask question)).2)
          ∧ (∀ error,
              (receiver.serve graph (.ask question)).1 = .error error
              → (receiver.serve graph (.ask question)).2 = receiver)
          ∧ ((∀ state ∈ receiver.states ++ question.others, graph.entry? state ≠ none)
            → ∃ answer, (receiver.serve graph (.ask question)).1 = .ok answer))
      ∧ (receiver.inPlace = true
        → ((receiver.serve graph .not).2.serve graph .not).2 = receiver)
      ∧ (receiver.serve graph .filter).2 = { receiver with inPlace := true }
      ∧ (receiver.serve graph .unfilter).2 = { receiver with inPlace := false }
      ∧ (∀ question, (receiver.serve graph (.ask question)).2.inPlace = receiver.inPlace)
      ∧ (receiver.serve graph .not).2.inPlace = receiver.inPlace
      ∧ (∀ call answer,
          (receiver.serve graph call).1 = .ok answer
          → answer.inPlace = (receiver.serve graph call).2.inPlace) := by
  have wellFormed := reached.wellFormed
  refine ⟨wellFormed, ?_, wellFormed.not_not, rfl, rfl, ?_, ?_, ?_⟩
  · intro question
    rw [serve, pose_eq]
    refine ⟨fun answer => answered_of_ask, fun error => ask_eq_error, ?_⟩
    intro known
    obtain ⟨statesKnown, othersKnown⟩ := List.forall_mem_append.mp known
    exact exists_ask fun state member =>
      Question.exists_about (statesKnown state member) othersKnown
  · intro question
    exact (receiver.inPlace_serve graph (.ask question)).1
  · exact (receiver.inPlace_serve graph .not).1
  · intro call answer answered
    obtain ⟨afterward, returned⟩ := receiver.inPlace_serve graph call
    exact (returned answer answered).trans afterward.symm

/-- The graph over the reader and its source. -/
def lateGraph : Graph :=
  Graph.empty.afterAll Graph.lateCalls

/-- All states, after the question which of them depend on the source and a switch to narrowing in
place.
-/
def switched : Filter :=
  (((all lateGraph).serve lateGraph (.ask (.dependsOn [.ofIndex 1]))).2.serve lateGraph .filter).2

/-- After the switch the complement is a part of the states. The next question divides all of them
again, and negating twice brings both back. Switched back, the filter keeps its states and its
complement, and the same question returns a new filter beside it.
-/
theorem laws_of_reached_switched
    : switched = ⟨[.ofIndex 0, .ofIndex 1], some [.ofIndex 1], true⟩
      ∧ switched.serve lateGraph (.ask (.dependencyOf [.ofIndex 0]))
          = (.ok ⟨[.ofIndex 1], some [.ofIndex 0], true⟩,
              ⟨[.ofIndex 1], some [.ofIndex 0], true⟩)
      ∧ Answered lateGraph switched (.dependencyOf [.ofIndex 0])
          ⟨[.ofIndex 1], some [.ofIndex 0], true⟩ ⟨[.ofIndex 1], some [.ofIndex 0], true⟩
      ∧ ((switched.serve lateGraph .not).2.serve lateGraph .not).2 = switched
      ∧ (switched.serve lateGraph .unfilter).2
          = ⟨[.ofIndex 0, .ofIndex 1], some [.ofIndex 1], false⟩
      ∧ (switched.serve lateGraph .unfilter).2.serve lateGraph (.ask (.dependencyOf [.ofIndex 0]))
          = (.ok ⟨[.ofIndex 1], some [.ofIndex 0], false⟩,
              ⟨[.ofIndex 0, .ofIndex 1], some [.ofIndex 0], false⟩)
      ∧ Answered lateGraph (switched.serve lateGraph .unfilter).2 (.dependencyOf [.ofIndex 0])
          ⟨[.ofIndex 1], some [.ofIndex 0], false⟩
          ⟨[.ofIndex 0, .ofIndex 1], some [.ofIndex 0], false⟩ := by
  have reached : Reached lateGraph switched := (Reached.all.after _).after _
  have asked
      : switched.serve lateGraph (.ask (.dependencyOf [.ofIndex 0]))
        = (.ok ⟨[.ofIndex 1], some [.ofIndex 0], true⟩,
            ⟨[.ofIndex 1], some [.ofIndex 0], true⟩) := by
    cbv
  have askedBack
      : (switched.serve lateGraph .unfilter).2.serve lateGraph (.ask (.dependencyOf [.ofIndex 0]))
        = (.ok ⟨[.ofIndex 1], some [.ofIndex 0], false⟩,
            ⟨[.ofIndex 0, .ofIndex 1], some [.ofIndex 0], false⟩) := by
    cbv
  obtain ⟨_, answers, twice, _, back, _⟩ := laws_of_reached reached
  have answered := (answers (.dependencyOf [.ofIndex 0])).1
  have answeredBack := ((laws_of_reached (reached.after .unfilter)).2.1
    (.dependencyOf [.ofIndex 0])).1
  rw [asked] at answered
  rw [askedBack] at answeredBack
  exact ⟨by cbv, asked, answered _ rfl, twice (by cbv), back.trans (by cbv), askedBack,
    answeredBack _ rfl⟩

end StepPlan.Filter
