import StepPlan.Proofs.Graph.Construction

/-! Questions about dependencies while a graph is used. What is reachable from a node is remembered
until the next state arrives. Only arrivals add edges, so what is remembered is always what a search
would find now, and every answer is about the edges of the moment.
-/

namespace StepPlan.Graph

/-- A call on a graph: an arrival, a cluster mark, or a question about dependencies. -/
inductive Call where
  | add (program : Program) (memo : Memo) (id : StateId)
  | setCluster (state : StateId) (cluster : ClusterId)
  | reachable (node : Nat)
  | dependsOn (state : StateId) (target : Target)
  | dependsOnState (state other : StateId)

/-- The graph that a call leaves behind, whether it succeeds or fails. -/
def after (graph : Graph) : Call → Graph
  | .add program memo id => (graph.add program memo id).2.1
  | .setCluster state cluster =>
      match graph.setCluster state cluster with
      | .ok marked => marked
      | .error _ => graph
  | .reachable node => graph.remember node
  | .dependsOn state target => graph.afterDependsOn state target
  | .dependsOnState state other => graph.afterDependsOnState state other

/-- The graph that calls leave behind, one after the other. -/
def afterAll (graph : Graph) (calls : List Call) : Graph :=
  calls.foldl after graph

-----------------------------------------------------------------------------------------
-- What is remembered
-----------------------------------------------------------------------------------------

/-- (graph.Fresh) means that what is remembered about a node is what a search from it finds. -/
def Fresh (graph : Graph) : Prop :=
  ∀ node known, graph.reached.lookup node = some known → known = graph.search node

theorem fresh_of_forgotten {graph : Graph} (forgotten : graph.reached = []) : graph.Fresh := by
  intro node known found
  rw [forgotten] at found
  nomatch found

/-- A search depends on the edges and the number of nodes only. -/
theorem Fresh.of_eq {graph other : Graph} (fresh : graph.Fresh) (edges : other.edges = graph.edges)
    (count : other.nodes.length = graph.nodes.length) (reached : other.reached = graph.reached)
    : other.Fresh := by
  intro node known found
  rw [search, edges, count]
  exact fresh node known (reached ▸ found)

theorem Fresh.remember {graph : Graph} (fresh : graph.Fresh) (node : Nat)
    : (graph.remember node).Fresh := by
  unfold Graph.remember
  split
  · exact fresh
  · intro other known found
    rw [List.lookup_cons] at found
    split at found
    · rename_i same
      rw [beq_iff_eq.mp same, ← Option.some.inj found]
      rfl
    · exact fresh other known found

@[simp] theorem reached_refer (node : Nat) (graph : Graph) (referent : Referent)
    : (refer node graph referent).reached = graph.reached := by
  unfold refer
  split <;> rfl

/-- Connecting a state leaves alone what is remembered, by induction on the referents. -/
theorem reached_connect (graph : Graph) (node : Nat) (state : State) (referents : List Referent)
    : (graph.connect node state referents).reached = graph.reached := by
  unfold connect
  induction referents.filter (fun referent => !isOwn state referent) generalizing graph with
  | nil => rfl
  | cons referent rest ih => rw [List.foldl_cons, ih, reached_refer]

/-- An arrival forgets what was remembered before it adds an edge. One that fails because the state
is not registered leaves the graph as it was.
-/
theorem Fresh.add {graph : Graph} (fresh : graph.Fresh) (program : Program) (memo : Memo)
    (id : StateId)
    : (graph.add program memo id).2.1.Fresh := by
  unfold Graph.add
  cases program.registry.get id with
  | error _ => exact fresh
  | ok state =>
      have forgotten : (graph.place id state).2.reached = [] := rfl
      dsimp only
      split
      · exact fresh_of_forgotten forgotten
      · rcases program.referents memo state.role.stage state.formula with ⟨_ | referents, memo⟩
        · exact fresh_of_forgotten forgotten
        · exact fresh_of_forgotten ((reached_connect _ _ state referents).trans forgotten)

theorem Fresh.setCluster {graph marked : Graph} (fresh : graph.Fresh) {state : StateId}
    {cluster : ClusterId} (success : graph.setCluster state cluster = .ok marked)
    : marked.Fresh := by
  unfold Graph.setCluster at success
  cases found : graph.entry state with
  | error _ => simp [found] at success
  | ok entry =>
      simp only [found, Except.ok.injEq] at success
      subst marked
      exact fresh.of_eq rfl (List.length_modify ..) rfl

/-- A question leaves the graph as it was or remembers one search. -/
theorem afterDependsOn_cases (graph : Graph) (state : StateId) (target : Target)
    : graph.afterDependsOn state target = graph
      ∨ ∃ node, graph.afterDependsOn state target = graph.remember node := by
  unfold afterDependsOn
  split
  · split
    · exact Or.inl rfl
    · exact Or.inr ⟨_, rfl⟩
  · exact Or.inl rfl

theorem afterDependsOnState_cases (graph : Graph) (state other : StateId)
    : graph.afterDependsOnState state other = graph
      ∨ ∃ node, graph.afterDependsOnState state other = graph.remember node := by
  unfold afterDependsOnState
  split
  · split
    · exact Or.inl rfl
    · exact Or.inr ⟨_, rfl⟩
  · exact Or.inl rfl

/-- (Kept graph) collects what every call keeps: the graph is constructed and its memory fresh. -/
structure Kept (graph : Graph) : Prop where
  constructed : graph.Constructed
  fresh : graph.Fresh

theorem Kept.remember {graph : Graph} (kept : graph.Kept) (node : Nat)
    : (graph.remember node).Kept :=
  ⟨kept.constructed.remember node, kept.fresh.remember node⟩

/-- Every call keeps the memory fresh. -/
theorem Kept.after {graph : Graph} (kept : graph.Kept) (call : Call) : (graph.after call).Kept := by
  cases call with
  | add program memo id =>
      exact ⟨kept.constructed.add program memo id, kept.fresh.add program memo id⟩
  | setCluster state cluster =>
      dsimp only [Graph.after]
      split
      · rename_i marked success
        exact ⟨kept.constructed.setCluster state cluster success, kept.fresh.setCluster success⟩
      · exact kept
  | reachable node => exact kept.remember node
  | dependsOn state target =>
      dsimp only [Graph.after]
      rcases graph.afterDependsOn_cases state target with same | ⟨node, remembered⟩
      · rwa [same]
      · rw [remembered]
        exact kept.remember node
  | dependsOnState state other =>
      dsimp only [Graph.after]
      rcases graph.afterDependsOnState_cases state other with same | ⟨node, remembered⟩
      · rwa [same]
      · rw [remembered]
        exact kept.remember node

/-- Whatever was called before, the memory is fresh, by induction on the calls. -/
theorem Kept.afterAll {graph : Graph} (kept : graph.Kept) (calls : List Call)
    : (graph.afterAll calls).Kept := by
  unfold Graph.afterAll
  induction calls generalizing graph with
  | nil => exact kept
  | cons call rest ih => exact ih (kept.after call)

-----------------------------------------------------------------------------------------
-- Answers
-----------------------------------------------------------------------------------------

theorem Fresh.reachable_eq {graph : Graph} (fresh : graph.Fresh) (node : Nat)
    : graph.reachable node = graph.search node := by
  unfold reachable
  split
  · rename_i known found
    exact fresh node known found
  · rfl

theorem allowsSelfReference_iff {role : Role}
    : role.allowsSelfReference = true ↔ role = .derivative ∨ role = .constraint := by
  cases role <;> simp [Role.allowsSelfReference]

/-- (graph.AnswersExactly) means that questions about known states and nodes are answered by the
paths over the edges of the graph as it is. Derivatives and constraints also depend on their own
target and on the other states of that target.
-/
structure AnswersExactly (graph : Graph) : Prop where
  reachable
    : ∀ node,
        (graph.reachable node).Nodup
        ∧ ∀ other, other ∈ graph.reachable node ↔ graph.Path node other
  dependsOn
    : ∀ state entry target,
        graph.entry? state = some entry
        → ∃ answer,
            graph.dependsOn state target = .ok answer
            ∧ (answer = true
              ↔ ((entry.role = .derivative ∨ entry.role = .constraint) ∧ entry.target = target)
                ∨ ∃ node found,
                    graph.Path entry.node node
                    ∧ graph.nodes[node]? = some found
                    ∧ found.key.target = target)
  dependsOnState
    : ∀ state entry other otherEntry,
        graph.entry? state = some entry
        → graph.entry? other = some otherEntry
        → ∃ answer,
            graph.dependsOnState state other = .ok answer
            ∧ (answer = true
              ↔ graph.Path entry.node otherEntry.node
                ∨ (state ≠ other
                  ∧ (entry.role = .derivative ∨ entry.role = .constraint)
                  ∧ entry.target = otherEntry.target))

/-- Whatever was called before, every question is answered exactly. So what was remembered for
earlier questions is never out of date.
-/
theorem answersExactly_afterAll (calls : List Call) : (empty.afterAll calls).AnswersExactly := by
  have start : empty.Kept := ⟨.empty, fresh_of_forgotten rfl⟩
  have kept := start.afterAll calls
  generalize empty.afterAll calls = graph at kept
  have mem_iff : ∀ node other, other ∈ graph.reachable node ↔ graph.Path node other := by
    intro node other
    rw [kept.fresh.reachable_eq, mem_search_iff kept.constructed.edgesInside]
  refine ⟨fun node => ⟨?_, mem_iff node⟩, ?_, ?_⟩
  · rw [kept.fresh.reachable_eq]
    exact Reach.closure_nodup _ _ _
  · intro state entry target found
    simp only [Graph.dependsOn, Graph.entry, found]
    refine ⟨_, rfl, ?_⟩
    simp only [Bool.or_eq_true, Bool.and_eq_true, decide_eq_true_eq, allowsSelfReference_iff,
      List.any_eq_true, mem_iff, beq_iff_eq, Option.map_eq_some_iff]
    simp only [exists_and_left]
  · intro state entry other otherEntry found otherFound
    simp only [Graph.dependsOnState, Graph.entry, found, otherFound]
    refine ⟨_, rfl, ?_⟩
    simp only [Bool.or_eq_true, Bool.and_eq_true, decide_eq_true_eq, allowsSelfReference_iff,
      List.contains_iff_mem, mem_iff, and_assoc]
    exact or_comm

/-- A reader of a variable and the state that the variable gets later. -/
def lateProgram : Program where
  model := ⟨["reader", "source"].map fun name => ⟨name, ⟨false, true, false, false⟩, none⟩⟩
  registry :=
    [⟨.var (.ofIndex 0), .direct, [.var (.ofIndex 1)], "reader"⟩,
      ⟨.var (.ofIndex 1), .direct, [.number ⟨0⟩], "source"⟩].foldl
        (fun registry state => (registry.add state).2) .empty

/-- The reader arrives, and what it reaches is asked for, before the source arrives. -/
def lateCalls : List Call :=
  [.add lateProgram .empty (.ofIndex 0), .dependsOnState (.ofIndex 0) (.ofIndex 0),
    .add lateProgram .empty (.ofIndex 1), .reachable 0]

/-- At first nothing is reachable from the reader, and that is remembered. The edge that the source
brings is seen all the same.
-/
theorem answersExactly_afterAll_late
    : (empty.afterAll (lateCalls.take 2)).reached = [(0, [])]
      ∧ (empty.afterAll lateCalls).reached = [(0, [1])]
      ∧ (empty.afterAll lateCalls).Path 0 1 := by
  have reached : 1 ∈ (empty.afterAll lateCalls).reachable 0 := by decide +kernel
  have exact := answersExactly_afterAll lateCalls
  exact ⟨by decide +kernel, by decide +kernel, ((exact.reachable 0).2 1).mp reached⟩

end StepPlan.Graph
