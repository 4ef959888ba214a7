import Mathlib
import StepPlan.Proofs.Graph.Building
import StepPlan.Session

/-! The graph that a session builds is the relation of reference between the listed states. Whether
it can be built, which nodes it has and which edges depends on the listed states alone, and not on
the order in which they are listed.
-/

namespace StepPlan.Session

/-- The referents of the formula of a state, as the session finds them. -/
def referents (session : Session) (state : State) : Except Error (List Referent) :=
  (session.program.referents session.memo state.role.stage state.formula).1

/-- (session.LiveReferent id referent) means that the session finds the referent for a state whose
value does not come from outside, and that it is no reference of the state to its own target.
-/
def LiveReferent (session : Session) (id : StateId) (referent : Referent) : Prop :=
  ∃ state found,
    session.program.registry.get? id = some state
    ∧ ¬ session.program.Preset state
    ∧ session.referents state = .ok found
    ∧ referent ∈ found
    ∧ ¬ Program.SelfReference state referent

/-- (session.Depicts states graph) means that the graph has one node for each key of the listed
states and an edge for each live referent of theirs.
-/
structure Depicts (session : Session) (states : List StateId) (graph : Graph) : Prop where
  distinct : graph.keys.Nodup
  nodes : ∀ key, key ∈ graph.keys ↔ ∃ id ∈ states, session.program.keyOf? id = some key
  edges
    : ∀ node dependency,
        graph.Edge node dependency
        ↔ ∃ id ∈ states,
            ∃ own referent,
              session.program.keyOf? id = some own
              ∧ session.LiveReferent id referent
              ∧ graph.nodeOfKey? own = some node
              ∧ graph.nodeOfKey? referent.key = some dependency

/-- What messages call the node of a listed state: the name of the first listed state with its key.
-/
def nodeName? (session : Session) (states : List StateId) (id : StateId) : Option String :=
  ((states.find? fun other => session.program.keyOf? other = session.program.keyOf? id).bind
    session.program.registry.get?).map State.name

variable {session : Session}

theorem fst_buildFor (states : List StateId) (clusters : Option ClusterSet)
    : (session.buildFor states clusters).1
      = (Graph.build session.program session.memo clusters states).1 :=
  rfl

/-- With an exact memo, the session finds the referents of every resolvable state. -/
theorem exists_referents (exact : session.memo.Exact session.program) {id : StateId} {state : State}
    (registered : session.program.registry.get? id = some state)
    (needed : ¬ session.program.Preset state)
    : session.program.Resolvable id ↔ ∃ found, session.referents state = .ok found := by
  have resolves := (Program.referents_resolves exact state.role.stage state.formula).1
  rw [← referents] at resolves
  constructor
  · intro ⟨known, knownAt, resolvable⟩
    cases registered.symm.trans knownAt
    cases outcome : session.referents state with
    | ok found => exact ⟨found, rfl⟩
    | error error =>
        rw [outcome] at resolves
        exact absurd resolves (resolvable.resolve_left needed error)
  · intro ⟨found, outcome⟩
    rw [outcome] at resolves
    exact ⟨state, registered, Or.inr resolves.1⟩

theorem resolvable_iff (exact : session.memo.Exact session.program) {id : StateId}
    (registered : session.program.registry.get? id ≠ none)
    : session.program.Resolvable id
      ↔ ∀ state,
          session.program.registry.get? id = some state
          → ¬ session.program.Preset state
          → ∃ found, session.referents state = .ok found := by
  obtain ⟨state, known⟩ := Option.ne_none_iff_exists'.mp registered
  simp only [known, Option.some.injEq, forall_eq']
  by_cases preset : session.program.Preset state
  · exact ⟨fun _ needed => absurd preset needed, fun _ => ⟨state, known, Or.inl preset⟩⟩
  · simp only [preset, not_false_eq_true, forall_true_left, exists_referents exact known preset]

theorem liveReferent_iff (exact : session.memo.Exact session.program) {id : StateId}
    (resolvable : session.program.Resolvable id) {referent : Referent}
    : session.LiveReferent id referent ↔ session.program.Live id referent := by
  constructor
  · intro ⟨state, found, registered, needed, outcome, member, other⟩
    have resolves := (Program.referents_resolves exact state.role.stage state.formula).1
    rw [← referents, outcome] at resolves
    exact ⟨state, registered, needed, (resolves.2 referent).mp member, other⟩
  · intro ⟨state, registered, needed, refers, other⟩
    obtain ⟨found, outcome⟩ := (exists_referents exact registered needed).mp resolvable
    have resolves := (Program.referents_resolves exact state.role.stage state.formula).1
    rw [← referents, outcome] at resolves
    exact ⟨state, found, registered, needed, outcome, (resolves.2 referent).mpr refers, other⟩

theorem depicts_of_reflects (exact : session.memo.Exact session.program)
    {membership : StateId → Option ClusterId} {states : List StateId} {graph : Graph}
    (resolvable : ∀ id ∈ states, session.program.Resolvable id)
    (reflects : Graph.Reflects session.program membership states graph)
    : session.Depicts states graph where
  distinct := reflects.consistent.distinct
  nodes := reflects.arrived
  edges node dependency := by
    rw [reflects.edge_iff]
    refine exists_congr fun id => and_congr_right fun member => ?_
    simp only [liveReferent_iff exact (resolvable id member),
      Graph.nodeOfKey?_eq_some_iff reflects.consistent.distinct]
    constructor
    · intro ⟨⟨own, key, place⟩, referent, live, there⟩
      exact ⟨own, referent, key, live, place, there⟩
    · intro ⟨own, referent, key, live, place, there⟩
      exact ⟨⟨own, key, place⟩, referent, live, there⟩

/-- A key that is reported as dangling belongs to no listed state, and the names reported with it
are those of the nodes whose states wait for it.
-/
theorem referrers_of_parked (exact : session.memo.Exact session.program)
    {membership : StateId → Option ClusterId} {states : List StateId} {graph : Graph}
    (resolvable : ∀ id ∈ states, session.program.Resolvable id)
    (reflects : Graph.Reflects session.program membership states graph) {key : Key}
    {waiting : List (Nat × Reading)} (parked : (key, waiting) ∈ graph.parked) (name : String)
    : name ∈ waiting.map (fun reference => graph.nodeName reference.1)
      ↔ ∃ id ∈ states,
          (∃ referent, session.LiveReferent id referent ∧ referent.key = key)
          ∧ session.nodeName? states id = some name := by
  have absent := reflects.consistent.parkedAbsent _ parked
  have waits : ∀ node, graph.Recorded node key ↔ node ∈ waiting.map Prod.fst := by
    intro node
    constructor
    · rintro (⟨dependency, there, _⟩ | ⟨other, otherParked, inside⟩)
      · exact absurd (List.mem_of_getElem? there) absent
      · exact Graph.eq_of_mem_parked reflects.consistent otherParked parked ▸ inside
    · exact fun inside => Or.inr ⟨waiting, parked, inside⟩
  have named : ∀ id own node, session.program.keyOf? id = some own
      → graph.keys[node]? = some own
      → session.nodeName? states id = some (graph.nodeName node) := by
    intro id own node key place
    rw [nodeName?, key]
    exact reflects.nodeName_eq place
  constructor
  · intro member
    obtain ⟨reference, inside, rfl⟩ := List.mem_map.mp member
    obtain ⟨id, listed, ⟨own, ownKey, place⟩, referent, live, same⟩ :=
      (reflects.recorded _ _).mp ((waits reference.1).mpr (List.mem_map_of_mem inside))
    have found := (liveReferent_iff exact (resolvable id listed)).mpr live
    exact ⟨id, listed, ⟨referent, found, same.symm⟩, named id own _ ownKey place⟩
  · intro ⟨id, listed, ⟨referent, found, same⟩, called⟩
    have live := (liveReferent_iff exact (resolvable id listed)).mp found
    obtain ⟨own, ownKey⟩ := live.exists_keyOf?
    obtain ⟨node, place⟩ := List.mem_iff_getElem?.mp
      ((reflects.arrived own).mpr ⟨id, listed, ownKey⟩)
    have inside := (waits node).mp
      ((reflects.recorded _ _).mpr ⟨id, listed, ⟨own, ownKey, place⟩, referent, live, same.symm⟩)
    obtain ⟨reference, referenceInside, rfl⟩ := List.mem_map.mp inside
    rw [named id own _ ownKey place] at called
    exact List.mem_map.mpr ⟨reference, referenceInside, Option.some.inj called⟩

/-- A graph over distinct registered states can be built exactly when all referents that are needed
can be found and the live ones have keys of listed states, and then it depicts the references. A key
that is reported as dangling belongs to no listed state, and the names reported with it are those of
the nodes whose states have a live referent with that key.
-/
theorem buildFor_exact (exact : session.memo.Exact session.program) {states : List StateId}
    (distinct : states.Nodup)
    (registered : ∀ id ∈ states, session.program.registry.get? id ≠ none)
    (clusters : Option ClusterSet)
    : ((∃ graph, (session.buildFor states clusters).1 = .ok graph)
        ↔ (∀ id ∈ states,
            ∀ state,
              session.program.registry.get? id = some state
              → ¬ session.program.Preset state
              → ∃ found, session.referents state = .ok found)
          ∧ ∀ id ∈ states,
              ∀ referent,
                session.LiveReferent id referent
                → ∃ other ∈ states, session.program.keyOf? other = some referent.key)
      ∧ (∀ graph,
          (session.buildFor states clusters).1 = .ok graph → session.Depicts states graph)
      ∧ ∀ key referrers,
          (session.buildFor states clusters).1 = .error (.danglingReference key referrers)
          → (∀ id ∈ states, session.program.keyOf? id ≠ some key)
            ∧ (∃ id ∈ states, ∃ referent, session.LiveReferent id referent ∧ referent.key = key)
            ∧ ∀ name,
                name ∈ referrers
                ↔ ∃ id ∈ states,
                    (∃ referent, session.LiveReferent id referent ∧ referent.key = key)
                    ∧ session.nodeName? states id = some name := by
  rw [fst_buildFor]
  refine ⟨?_, ?_, ?_⟩
  · rw [Graph.exists_build_iff exact clusters distinct,
      ← forall₂_congr fun id member => resolvable_iff exact (registered id member)]
    refine and_congr_right fun resolvable => forall₂_congr fun id member => ?_
    exact forall_congr' fun referent => by rw [liveReferent_iff exact (resolvable id member)]
  · intro graph built
    have possible := (Graph.exists_build_iff exact clusters distinct).mp ⟨graph, built⟩
    exact depicts_of_reflects exact possible.1 (Graph.reflects_of_build exact distinct built)
  · intro key referrers failed
    rcases Graph.build_spec exact clusters distinct with
      ⟨_, built, _⟩ | ⟨graph, parkedKey, waiting, dangles, reflects, resolvable, parked⟩
        | ⟨_, unknown, _⟩
    · cases failed.symm.trans built
    · cases failed.symm.trans dangles
      obtain ⟨absent, id, member, referent, live, same⟩ := reflects.of_mem_parked parked
      have found := (liveReferent_iff exact (resolvable id member)).mpr live
      exact ⟨absent, ⟨id, member, referent, found, same.symm⟩,
        referrers_of_parked exact resolvable reflects parked⟩
    · cases failed.symm.trans unknown

/-- The derivative of `x` reads `x` and `y` through the definition of `force`, `y` reads `x`, and
the initial value of the input `u` is set from outside.
-/
def feedback : Session where
  program := {
    model := ⟨[⟨"x", ⟨false, true, false, true⟩, none⟩, ⟨"y", ⟨false, true, false, false⟩, none⟩,
      ⟨"u", ⟨true, false, false, false⟩, none⟩, ⟨"force", ⟨false, false, false, false⟩,
        some [.var (.ofIndex 0), .var (.ofIndex 1), .operator .add]⟩]⟩
    registry := [⟨.var (.ofIndex 0), .integrated, [], "x"⟩,
      ⟨.var (.ofIndex 0), .derivative, [.var (.ofIndex 3)], "dx"⟩,
      ⟨.var (.ofIndex 1), .direct, [.var (.ofIndex 0)], "y"⟩,
      ⟨.var (.ofIndex 2), .initialization, [.slot (.ofIndex 0)], "u0"⟩].foldl
        (fun registry state => (registry.add state).2) .empty
  }
  options := .standard
  codes := .empty
  memo := .empty

/-- The derivative comes before `y`, and `y` before `x`. -/
def feedbackStates : List StateId :=
  [.ofIndex 3, .ofIndex 1, .ofIndex 2, .ofIndex 0]

/-- All references of the feedback point to states that arrive later. Without `y` one of them
dangles, and it is one of the derivative.
-/
theorem buildFor_exact_feedback
    : (∃ graph,
        (feedback.buildFor feedbackStates none).1 = .ok graph
        ∧ feedback.Depicts feedbackStates graph)
      ∧ (feedback.buildFor [.ofIndex 1, .ofIndex 0] none).1
          = .error (.danglingReference ⟨.var (.ofIndex 1), .value⟩ ["dx"])
      ∧ ∃ id ∈ [.ofIndex 1, .ofIndex 0],
          ∃ referent,
            feedback.LiveReferent id referent
            ∧ referent.key = ⟨.var (.ofIndex 1), .value⟩ := by
  have exact : feedback.memo.Exact feedback.program := Memo.exact_empty _
  obtain ⟨graph, built⟩ : ∃ graph, (feedback.buildFor feedbackStates none).1 = .ok graph :=
    ⟨(feedback.buildFor feedbackStates none).1.toOption.getD .empty, by cbv⟩
  have dangles : (feedback.buildFor [.ofIndex 1, .ofIndex 0] none).1
      = .error (.danglingReference ⟨.var (.ofIndex 1), .value⟩ ["dx"]) := by
    cbv
  have depicts := (buildFor_exact exact (by decide : feedbackStates.Nodup) (by decide) none).2.1
  have dangling := (buildFor_exact exact (by decide) (by decide) none).2.2 _ _ dangles
  exact ⟨⟨graph, built, depicts graph built⟩, dangles, dangling.2.1⟩

end StepPlan.Session
