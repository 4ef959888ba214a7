import StepPlan.Proofs.Graph.Readings
import StepPlan.Proofs.Graph.Similarity
import StepPlan.Proofs.Referent.Flat
import StepPlan.Proofs.Session.Building

/-! Builds repeat, up to order. What a session remembers from earlier builds decides in which order
referents are found, and so the order in which a node lists its dependencies, the reading kept for a
dependency that is read in several ways, and which of several dangling keys is reported. Everything
else is the same as if nothing were remembered.
-/

namespace StepPlan

namespace Graph

variable {program : Program} {states : List StateId} {graph other : Graph}

/-- No listed state has the key, and some listed state has a live referent with it. -/
def Dangles (program : Program) (states : List StateId) (key : Key) : Prop :=
  (∀ id ∈ states, program.keyOf? id ≠ some key)
  ∧ ∃ id ∈ states, ∃ reading, program.Live id ⟨key, reading⟩

/-- Listed states of one key never read another key in two ways. -/
def ReadOneWay (program : Program) (states : List StateId) : Prop :=
  ∀ id ∈ states, ∀ other ∈ states,
    program.keyOf? id = program.keyOf? other
    → ∀ key reading otherReading,
        program.Live id ⟨key, reading⟩
        → program.Live other ⟨key, otherReading⟩
        → reading = otherReading

/-- (graph.ReadsLive program states) means that every dependency is listed with the reading of a
live referent of a listed state.
-/
def ReadsLive (graph : Graph) (program : Program) (states : List StateId) : Prop :=
  ∀ node dependency reading,
    (dependency, reading) ∈ graph.edges.dependencies node
    → ∃ id ∈ states,
        ∃ own key,
          program.keyOf? id = some own
          ∧ graph.keys[node]? = some own
          ∧ graph.keys[dependency]? = some key
          ∧ program.Live id ⟨key, reading⟩

/-- What two builds over the same states have in common: similar graphs, the same error, or errors
about two dangling keys. Where nothing is read in two ways, similar graphs also agree in readings.
-/
inductive Repeats (program : Program) (states : List StateId)
    : Except Error Graph → Except Error Graph → Prop
  | built {graph other : Graph} (similar : graph.Similar other)
    (live : graph.ReadsLive program states) (otherLive : other.ReadsLive program states)
    (readings
      : ReadOneWay program states
        → ∀ node, (graph.edges.dependencies node).Perm (other.edges.dependencies node))
    : Repeats program states (.ok graph) (.ok other)
  | failed (error : Error) : Repeats program states (.error error) (.error error)
  | dangling {key otherKey : Key} (referrers otherReferrers : List String)
    (different : key ≠ otherKey) (dangles : Dangles program states key)
    (otherDangles : Dangles program states otherKey)
    : Repeats program states (.error (.danglingReference key referrers))
        (.error (.danglingReference otherKey otherReferrers))

theorem Sourced.readsLive (sourced : graph.Sourced program states)
    : graph.ReadsLive program states := by
  intro node dependency reading member
  obtain ⟨key, place, id, listed, ⟨own, ownKey, ownPlace⟩, live⟩ :=
    sourced.edges node dependency reading member
  exact ⟨id, listed, own, key, ownKey, ownPlace, place, live⟩

/-- A key that is parked dangles. -/
theorem Sourced.dangles (sourced : graph.Sourced program states) {key : Key}
    {waiting : List (Nat × Reading)} (parked : (key, waiting) ∈ graph.parked)
    : Dangles program states key := by
  constructor
  · intro id member same
    exact sourced.consistent.parkedAbsent _ parked (sourced.arrived id member key same)
  · obtain ⟨⟨node, reading⟩, inside⟩ :=
      List.exists_mem_of_ne_nil _ (sourced.consistent.parkedUsed _ parked)
    obtain ⟨id, member, _, live⟩ := sourced.parked key waiting parked node reading inside
    exact ⟨id, member, reading, live⟩

/-- Where nothing is read in two ways, a dependency of a node has one reading. -/
theorem ReadsLive.reading_eq (live : graph.ReadsLive program states)
    (otherLive : other.ReadsLive program states) (nodes : graph.nodes = other.nodes)
    (single : ReadOneWay program states)
    {node dependency : Nat} {reading otherReading : Reading}
    (member : (dependency, reading) ∈ graph.edges.dependencies node)
    (otherMember : (dependency, otherReading) ∈ other.edges.dependencies node)
    : reading = otherReading := by
  obtain ⟨id, listed, own, key, ownKey, ownPlace, place, asks⟩ :=
    live node dependency reading member
  obtain ⟨otherId, otherListed, otherOwn, otherKey, otherOwnKey, otherOwnPlace, otherPlace,
    otherAsks⟩ := otherLive node dependency otherReading otherMember
  rw [keys, nodes, ← keys] at ownPlace place
  cases ownPlace.symm.trans otherOwnPlace
  cases place.symm.trans otherPlace
  exact single id listed otherId otherListed (ownKey.trans otherOwnKey.symm) key _ _ asks otherAsks

/-- Lists of dependencies with the same nodes are the same up to order if no node has two readings,
by induction on the first list.
-/
theorem perm_of_readings {first second : List (Nat × Reading)}
    (permuted : (first.map Prod.fst).Perm (second.map Prod.fst))
    (single
      : ∀ dependency reading otherReading,
          (dependency, reading) ∈ first
          → (dependency, otherReading) ∈ second
          → reading = otherReading)
    : first.Perm second := by
  induction first generalizing second with
  | nil =>
      have none : second = [] := List.map_eq_nil_iff.mp permuted.symm.eq_nil
      rw [none]
  | cons pair rest ih =>
      obtain ⟨dependency, reading⟩ := pair
      obtain ⟨⟨same, otherReading⟩, member, rfl⟩ :=
        List.mem_map.mp (permuted.mem_iff.mp List.mem_cons_self)
      cases single same reading otherReading List.mem_cons_self member
      have split := List.perm_cons_erase member
      have later := (permuted.trans (split.map Prod.fst)).cons_inv
      refine ((ih later ?_).cons _).trans split.symm
      intro dependency one other inside otherInside
      exact single dependency one other (List.mem_cons_of_mem _ inside)
        (List.mem_of_mem_erase otherInside)

/-- A graph is finished, or nodes wait for the key that is reported. -/
theorem finish_cases (graph : Graph)
    : (graph.finish = .ok graph ∧ ∀ key, graph.waiting? key = none)
      ∨ ∃ key waiting,
          (key, waiting) ∈ graph.parked
          ∧ graph.waiting? key = some (waiting.map Prod.fst)
          ∧ graph.finish
            = .error (.danglingReference key ((waiting.map Prod.fst).map graph.nodeName)) := by
  unfold finish
  split <;> rename_i parked
  · exact Or.inl ⟨rfl, fun key => by rw [waiting?, parked, List.lookup_nil, Option.map_none]⟩
  · rename_i key waiting rest
    refine Or.inr ⟨key, waiting, parked ▸ List.mem_cons_self, ?_, ?_⟩
    · rw [waiting?, parked, List.lookup_cons_self, Option.map_some]
    · rw [List.map_map]
      rfl

/-- Similar graphs are finished in the same way, or another key is reported. -/
theorem Similar.finish (similar : graph.Similar other) (sourced : graph.Sourced program states)
    (otherSourced : other.Sourced program states)
    : Repeats program states graph.finish other.finish := by
  rcases graph.finish_cases with ⟨done, free⟩ | ⟨key, waiting, parked, waits, failed⟩
  · rcases other.finish_cases with ⟨otherDone, _⟩ | ⟨key, _, _, waits, _⟩
    · have live := sourced.readsLive
      have otherLive := otherSourced.readsLive
      rw [done, otherDone]
      refine .built similar live otherLive fun single node => ?_
      apply perm_of_readings (similar.edges.next node)
      intro dependency reading otherReading member otherMember
      exact live.reading_eq otherLive similar.nodes single member otherMember
    · nomatch (free key).symm.trans ((similar.waiting key).trans waits)
  · rcases other.finish_cases with
      ⟨_, free⟩ | ⟨otherKey, otherWaiting, otherParked, otherWaits, otherFailed⟩
    · nomatch waits.symm.trans ((similar.waiting key).trans (free key))
    · rw [failed, otherFailed]
      by_cases same : key = otherKey
      · subst same
        have names := Option.some.inj (waits.symm.trans ((similar.waiting key).trans otherWaits))
        rw [names, funext similar.nodeName]
        exact .failed _
      · exact .dangling _ _ same (sourced.dangles parked) (otherSourced.dangles otherParked)

/-- Builds over the same states repeat, whatever exact memos resolve their referents. -/
theorem repeats_build {memo otherMemo : Memo} (exact : memo.Exact program)
    (otherExact : otherMemo.Exact program) (clusters : Option ClusterSet) (states : List StateId)
    : Repeats program states (build program memo clusters states).1
        (build program otherMemo clusters states).1 := by
  have steps := (Similar.refl empty).addAll exact otherExact clusters states
  have sourced : ∀ {memo : Memo} {graph : Graph}, memo.Exact program
      → (empty.addAll program memo clusters states).1 = .ok graph
      → graph.Sourced program states :=
    fun exact built => (sourced_empty program).addAll exact built
  unfold build
  rcases outcome : empty.addAll program memo clusters states with ⟨result, later⟩
  rcases otherOutcome : empty.addAll program otherMemo clusters states with
    ⟨otherResult, otherLater⟩
  rw [outcome, otherOutcome] at steps
  cases steps with
  | failed error => exact .failed error
  | done similar =>
      apply similar.finish
      · exact sourced exact (congrArg Prod.fst outcome)
      · exact sourced otherExact (congrArg Prod.fst otherOutcome)

-----------------------------------------------------------------------------------------
-- Flat definitions
-----------------------------------------------------------------------------------------

/-- A state is added alike if its referents are found alike. -/
theorem add_eq {memo otherMemo : Memo}
    (same
      : ∀ stage formula,
          (program.referents memo stage formula).1 = (program.referents otherMemo stage formula).1)
    (graph : Graph) (id : StateId)
    : (graph.add program memo id).1 = (graph.add program otherMemo id).1
      ∧ (graph.add program memo id).2.1 = (graph.add program otherMemo id).2.1 := by
  unfold Graph.add
  cases program.registry.get id with
  | error error => exact ⟨rfl, rfl⟩
  | ok state =>
      have found := same state.role.stage state.formula
      dsimp only
      split
      · exact ⟨rfl, rfl⟩
      · rcases outcome : program.referents memo state.role.stage state.formula with ⟨result, later⟩
        rcases otherOutcome : program.referents otherMemo state.role.stage state.formula with
          ⟨otherResult, otherLater⟩
        rw [outcome, otherOutcome] at found
        cases found
        cases result <;> exact ⟨rfl, rfl⟩

/-- Where definitions are flat, states are added alike, by induction on them. -/
theorem addAll_eq_of_flat (flat : program.Flat) {memo otherMemo : Memo}
    (plain : memo.Plain program) (otherPlain : otherMemo.Plain program) (graph : Graph)
    (clusters : Option ClusterSet) (states : List StateId)
    : (graph.addAll program memo clusters states).1
      = (graph.addAll program otherMemo clusters states).1 := by
  induction states generalizing graph memo otherMemo with
  | nil => rfl
  | cons id rest ih =>
      have step := fun (memo : Memo) stage formula (plain : memo.Plain program) =>
        Program.plain_referents flat plain stage formula
      have kept := add_keeps (·.Plain program) step plain graph id
      have otherKept := add_keeps (·.Plain program) step otherPlain graph id
      have arrival := add_eq (Program.referents_eq_of_flat flat plain otherPlain) graph id
      unfold Graph.addAll
      rcases outcome : graph.add program memo id with ⟨result, next, later⟩
      rcases otherOutcome : graph.add program otherMemo id with ⟨otherResult, otherNext, otherLater⟩
      rw [outcome] at kept arrival
      rw [otherOutcome] at otherKept arrival
      obtain ⟨rfl, rfl⟩ := arrival
      cases result with
      | error error => rfl
      | ok node =>
          cases clusters.bind fun set => set.clusterOf? id with
          | none => exact ih kept otherKept next
          | some cluster =>
              dsimp only
              cases next.setCluster id cluster with
              | error error => rfl
              | ok marked => exact ih kept otherKept marked

theorem build_eq_of_flat (flat : program.Flat) {memo otherMemo : Memo}
    (plain : memo.Plain program) (otherPlain : otherMemo.Plain program)
    (clusters : Option ClusterSet) (states : List StateId)
    : (build program memo clusters states).1 = (build program otherMemo clusters states).1 := by
  have same := addAll_eq_of_flat flat plain otherPlain .empty clusters states
  unfold build
  rcases outcome : empty.addAll program memo clusters states with ⟨result, later⟩
  rcases otherOutcome : empty.addAll program otherMemo clusters states with
    ⟨otherResult, otherLater⟩
  rw [outcome, otherOutcome] at same
  cases same
  cases result <;> rfl

end Graph

namespace Session

/-- The session after earlier builds, successful or not. -/
def afterBuilds (session : Session) (earlier : List (List StateId × Option ClusterSet)) : Session :=
  earlier.foldl (fun session build => (session.buildFor build.1 build.2).2) session

/-- Builds change nothing but the memo, of which they keep true what resolution does, by induction
on the builds.
-/
theorem afterBuilds_keeps (keeps : Memo → Prop) {session : Session}
    (step
      : ∀ memo stage formula,
          keeps memo → keeps (session.program.referents memo stage formula).2)
    (kept : keeps session.memo) (earlier : List (List StateId × Option ClusterSet))
    : (session.afterBuilds earlier).program = session.program
      ∧ keeps (session.afterBuilds earlier).memo := by
  induction earlier generalizing session with
  | nil => exact ⟨rfl, kept⟩
  | cons build rest ih =>
      have later := Graph.build_keeps keeps step kept build.2 build.1
      exact @ih (session.buildFor build.1 build.2).2 step later

/-- Whatever was built since nothing was remembered, a build over any list of states has the outcome
that it would have if nothing were remembered: a graph with the same nodes, entries and roots, in
which every node has the same dependents in the same order and the same dependencies in some order,
or the same error, if it is not about another of several dangling keys. Where definitions are flat,
the outcome is exactly the same.
-/
theorem buildFor_repeats {session : Session} (fresh : session.memo = .empty)
    (earlier : List (List StateId × Option ClusterSet)) (states : List StateId)
    (clusters : Option ClusterSet)
    : Graph.Repeats session.program states
        ((session.afterBuilds earlier).buildFor states clusters).1
        (session.buildFor states clusters).1
      ∧ (session.program.Flat
        → ((session.afterBuilds earlier).buildFor states clusters).1
          = (session.buildFor states clusters).1) := by
  simp only [fst_buildFor]
  constructor
  · have exact : session.memo.Exact session.program := fresh ▸ Memo.exact_empty session.program
    have step := fun (memo : Memo) stage formula (exact : memo.Exact session.program) =>
      (Program.referents_resolves exact stage formula).2
    obtain ⟨program, kept⟩ := afterBuilds_keeps (·.Exact session.program) step exact earlier
    rw [program]
    exact Graph.repeats_build kept exact clusters states
  · intro flat
    have plain : session.memo.Plain session.program := fresh ▸ Memo.plain_empty session.program
    have step := fun (memo : Memo) stage formula (plain : memo.Plain session.program) =>
      Program.plain_referents flat plain stage formula
    obtain ⟨program, kept⟩ := afterBuilds_keeps (·.Plain session.program) step plain earlier
    rw [program]
    exact Graph.build_eq_of_flat flat kept plain clusters states

/-- `part` stands for `x`, and `whole` for a sum of `part`, `y` and the value that `x` has stored.
Two states read them.
-/
def sums : Session where
  program := {
    model := ⟨[⟨"x", ⟨false, true, false, false⟩, none⟩, ⟨"y", ⟨false, true, false, false⟩, none⟩,
      ⟨"part", ⟨false, false, false, false⟩, some [.var (.ofIndex 0)]⟩,
      ⟨"whole", ⟨false, false, false, false⟩,
        some [.var (.ofIndex 2), .var (.ofIndex 1), .operator .add, .slot (.ofIndex 0),
          .operator .add]⟩,
      ⟨"p", ⟨false, true, false, false⟩, none⟩, ⟨"q", ⟨false, true, false, false⟩, none⟩]⟩
    registry := [⟨.var (.ofIndex 0), .integrated, [], "x"⟩,
      ⟨.var (.ofIndex 1), .integrated, [], "y"⟩,
      ⟨.var (.ofIndex 4), .direct, [.var (.ofIndex 2)], "p"⟩,
      ⟨.var (.ofIndex 5), .direct, [.var (.ofIndex 3)], "q"⟩].foldl
        (fun registry state => (registry.add state).2) .empty
  }
  options := .standard
  codes := .empty
  memo := .empty

/-- One build that fails and one that succeeds. Both have looked through `part`. -/
def partBuilds : List (List StateId × Option ClusterSet) :=
  [([.ofIndex 2], none), ([.ofIndex 0, .ofIndex 1, .ofIndex 2], none)]

/-- The definition of `force` mentions `x` and `y`, which have states. -/
theorem feedback_flat : feedback.program.Flat := by
  intro stage id ungoverned other member
  have governed : ∀ other ∈ feedback.program.model.mentioned,
      feedback.program.governingKey? stage (.var other) ≠ none := by
    cases stage <;> decide
  exact Or.inl (governed other (Model.mem_mentioned member))

/-- The list of the sums repeats a state, and their definitions are not flat. Those of the feedback
are.
-/
theorem buildFor_repeats_sums
    : sums.memo = .empty
      ∧ Graph.Repeats sums.program [.ofIndex 0, .ofIndex 1, .ofIndex 3, .ofIndex 3]
          ((sums.afterBuilds partBuilds).buildFor
            [.ofIndex 0, .ofIndex 1, .ofIndex 3, .ofIndex 3] none).1
          (sums.buildFor [.ofIndex 0, .ofIndex 1, .ofIndex 3, .ofIndex 3] none).1
      ∧ feedback.memo = .empty
      ∧ feedback.program.Flat
      ∧ ((feedback.afterBuilds [([.ofIndex 1], none)]).buildFor feedbackStates none).1
        = (feedback.buildFor feedbackStates none).1 := by
  refine ⟨rfl, ?_, rfl, feedback_flat, ?_⟩
  · exact (buildFor_repeats rfl partBuilds _ none).1
  · exact (buildFor_repeats rfl [([.ofIndex 1], none)] feedbackStates none).2 feedback_flat

/-- After `part` was looked through, the dependencies of `q` are listed in another order, and `x` is
read as a variable instead of as a slot. Without `x` and `y`, the key that is reported is another.
-/
theorem buildFor_order_remembers
    : (∃ graph other,
        (sums.buildFor [.ofIndex 0, .ofIndex 1, .ofIndex 3] none).1 = .ok graph
        ∧ ((sums.afterBuilds partBuilds).buildFor [.ofIndex 0, .ofIndex 1, .ofIndex 3] none).1
          = .ok other
        ∧ graph.edges.dependencies 2 = [(0, .slot), (1, .var)]
        ∧ other.edges.dependencies 2 = [(1, .var), (0, .var)])
      ∧ (sums.buildFor [.ofIndex 3] none).1
        = .error (.danglingReference ⟨.var (.ofIndex 1), .value⟩ ["q"])
      ∧ ((sums.afterBuilds partBuilds).buildFor [.ofIndex 3] none).1
        = .error (.danglingReference ⟨.var (.ofIndex 0), .value⟩ ["q", "q"]) := by
  refine ⟨⟨(sums.buildFor [.ofIndex 0, .ofIndex 1, .ofIndex 3] none).1.toOption.getD .empty,
    ((sums.afterBuilds partBuilds).buildFor
      [.ofIndex 0, .ofIndex 1, .ofIndex 3] none).1.toOption.getD .empty, ?_, ?_, ?_, ?_⟩, ?_, ?_⟩
  all_goals cbv

end Session

end StepPlan
