import Mathlib.Logic.Function.Basic
import StepPlan.Proofs.Graph.Wiring
import StepPlan.Proofs.Referent

/-! A graph reflects the states it was built from. Its nodes are their keys, its entries are the
states in order of arrival, and what is recorded at a node are the keys of the live referents of
the states there. Every arrival keeps this, in whatever order states arrive and whatever exact memo
resolves them. So a build succeeds exactly when all referents can be found and all their keys
arrive.
-/

namespace StepPlan

namespace Program

/-- The key of a state, if it is registered. -/
def keyOf? (program : Program) (id : StateId) : Option Key :=
  (program.registry.get? id).map State.key

/-- A state initializes an input or a variable that is set once, so its value comes from outside. -/
def Preset (program : Program) (state : State) : Prop :=
  state.role = .initialization
  ∧ ∃ id found,
      state.target = .var id
      ∧ program.model.get? id = some found
      ∧ (found.flags.input = true ∨ found.flags.once = true)

/-- A referent belongs to the target of a state that may read its own target. -/
def SelfReference (state : State) (referent : Referent) : Prop :=
  (state.role = .derivative ∨ state.role = .constraint) ∧ referent.key.target = state.target

/-- What a state has to wait for: the referents of its formula, its own target apart where it may be
read. A state whose value comes from outside waits for nothing.
-/
def Live (program : Program) (id : StateId) (referent : Referent) : Prop :=
  ∃ state,
    program.registry.get? id = some state
    ∧ ¬ program.Preset state
    ∧ program.Refers state.role.stage state.formula referent
    ∧ ¬ SelfReference state referent

/-- A state is registered, and its referents can be found if they are needed. -/
def Resolvable (program : Program) (id : StateId) : Prop :=
  ∃ state,
    program.registry.get? id = some state
    ∧ (program.Preset state ∨ ∀ error, ¬ program.Fails state.role.stage state.formula error)

theorem isBareInitializer_iff {program : Program} {state : State}
    : program.isBareInitializer state = true ↔ program.Preset state := by
  unfold isBareInitializer Preset
  split
  · rename_i id role target
    cases found : program.model.get? id with
    | none => simp [role, target, found]
    | some known => simp [role, target, found]
  · rename_i other
    simp only [Bool.false_eq_true, false_iff]
    rintro ⟨role, id, _, target, _⟩
    exact other id role target

theorem keyOf?_of_get? {program : Program} {id : StateId} {state : State}
    (registered : program.registry.get? id = some state)
    : program.keyOf? id = some state.key := by
  rw [keyOf?, registered, Option.map_some]

theorem Live.exists_keyOf? {program : Program} {id : StateId} {referent : Referent}
    (live : program.Live id referent)
    : ∃ own, program.keyOf? id = some own := by
  obtain ⟨state, registered, _⟩ := live
  exact ⟨state.key, keyOf?_of_get? registered⟩

end Program

theorem Graph.isOwn_iff {state : State} {referent : Referent}
    : Graph.isOwn state referent = true ↔ Program.SelfReference state referent := by
  unfold Graph.isOwn Program.SelfReference
  cases state.role <;> simp [Role.allowsSelfReference]

namespace Graph

variable {program : Program} {membership : StateId → Option ClusterId} {done : List StateId}
  {graph : Graph}

/-- (Reflects program membership done graph) means that the graph is made of the states that are
done, in this order and with these memberships, and of their live referents.
-/
structure Reflects (program : Program) (membership : StateId → Option ClusterId)
    (done : List StateId) (graph : Graph)
    : Prop where
  consistent : graph.Consistent
  arrived : ∀ key, key ∈ graph.keys ↔ ∃ id ∈ done, program.keyOf? id = some key
  grouped
    : ∀ node ∈ graph.nodes,
        node.states = done.filter fun id => program.keyOf? id = some node.key
  listed : graph.states = done
  located
    : ∀ entry ∈ graph.entries,
        ∃ state,
          program.registry.get? entry.state = some state
          ∧ graph.keys[entry.node]? = some state.key
          ∧ entry.name = state.name
  marked : ∀ entry ∈ graph.entries, entry.cluster = membership entry.state
  recorded
    : ∀ node key,
        graph.Recorded node key
        ↔ ∃ id ∈ done,
            (∃ own, program.keyOf? id = some own ∧ graph.keys[node]? = some own)
            ∧ ∃ referent, program.Live id referent ∧ key = referent.key

theorem reflects_empty (program : Program) (membership : StateId → Option ClusterId)
    : Reflects program membership [] .empty where
  consistent := consistent_empty
  arrived := by simp [keys, empty]
  grouped := nofun
  listed := rfl
  located := nofun
  marked := nofun
  recorded := by simp [Recorded, keys, empty, Waits]

-----------------------------------------------------------------------------------------
-- A state arrives at its node
-----------------------------------------------------------------------------------------

/-- A state is put on the node of its key, or on a new node at the end. Everything else about the
wiring stays.
-/
structure Placed (id : StateId) (state : State) (graph : Graph) (node : Nat) (placed : Graph)
    : Prop where
  consistent : placed.Consistent
  here : placed.keys[node]? = some state.key
  stays
    : ∀ (other : Nat) (key : Key),
        graph.keys[other]? = some key → placed.keys[other]? = some key
  arrived : ∀ key, key ∈ placed.keys ↔ key ∈ graph.keys ∨ key = state.key
  recorded : ∀ other key, placed.Recorded other key ↔ graph.Recorded other key
  joined
    : ∀ found ∈ placed.nodes,
        (found.key = state.key ∧ state.key ∉ graph.keys ∧ found.states = [id])
        ∨ ∃ old ∈ graph.nodes,
            found.key = old.key
            ∧ found.states = if old.key = state.key then old.states ++ [id] else old.states
  entries
    : placed.entries = enter graph.entries ⟨id, node, state.target, state.role, state.name, none⟩

/-- A state whose key has arrived changes nothing about the wiring. -/
theorem sameWiring_place_of_known {state : State} {node : Nat}
    (found : graph.nodeOfKey? state.key = some node) (id : StateId)
    : graph.SameWiring (graph.place id state).2 := by
  simp only [place, found]
  exact ⟨map_key_modify graph.nodes node _ fun _ => rfl, rfl, rfl⟩

/-- A state whose key is new changes what the arrival of the key changes. -/
theorem sameWiring_place_of_new {state : State} (missing : graph.nodeOfKey? state.key = none)
    (id : StateId)
    : (graph.arrive state.key id).SameWiring (graph.place id state).2 := by
  simp only [place, missing]
  exact ⟨rfl, rfl, rfl⟩

/-- A key that has arrived gets one more state on its node. Keys are distinct, so no other node has
it.
-/
theorem placed_known (consistent : graph.Consistent) {id : StateId} {state : State} {node : Nat}
    (found : graph.nodeOfKey? state.key = some node)
    : Placed id state graph node (graph.place id state).2 := by
  have here := getElem?_of_nodeOfKey? found
  have same := sameWiring_place_of_known found id
  refine {
    consistent := same.consistent consistent
    here := same.keys ▸ here
    stays := fun other key there => same.keys ▸ there
    arrived := ?_
    recorded := same.recorded_iff
    joined := ?_
    entries := by simp only [place, found]
  }
  · intro key
    rw [same.keys]
    refine ⟨Or.inl, fun either => ?_⟩
    rcases either with old | new
    · exact old
    · exact new ▸ List.mem_of_getElem? here
  · intro joined member
    simp only [place, found] at member
    obtain ⟨position, there⟩ := List.mem_iff_getElem?.mp member
    rw [List.getElem?_modify] at there
    obtain ⟨old, oldThere, rfl⟩ := Option.map_eq_some_iff.mp there
    have keyThere : graph.keys[position]? = some old.key := by simp [keys, oldThere]
    have own : old.key = state.key ↔ node = position := by
      rw [← nodeOfKey?_eq_some_iff consistent.distinct] at keyThere
      constructor
      · intro same
        rw [same, found] at keyThere
        exact Option.some.inj keyThere
      · intro same
        rw [nodeOfKey?_eq_some_iff consistent.distinct, ← same, here] at keyThere
        exact (Option.some.inj keyThere).symm
    refine Or.inr ⟨old, List.mem_of_getElem? oldThere, ?_⟩
    by_cases same : node = position <;> simp [own, same]

/-- A key that has not arrived gets a node of its own. -/
theorem placed_new (consistent : graph.Consistent) {id : StateId} {state : State}
    (fresh : state.key ∉ graph.keys)
    : Placed id state graph graph.nodes.length (graph.place id state).2 := by
  have missing := nodeOfKey?_eq_none_iff.mpr fresh
  have same := sameWiring_place_of_new missing id
  have places := same.keys ▸ graph.getElem?_keys_arrive state.key id
  obtain ⟨waiting, roots, _, result⟩ := graph.arrive_eq state.key id
  refine {
    consistent := same.consistent (consistent.arrive fresh id)
    here := (places _ _).mpr (Or.inr ⟨rfl, rfl⟩)
    stays := fun other key there => (places _ _).mpr (Or.inl there)
    arrived := by simp [same.keys]
    recorded := ?_
    joined := ?_
    entries := by simp only [place, missing, result]
  }
  · intro other key
    rw [same.recorded_iff, recorded_arrive consistent]
  · intro joined member
    simp only [place, missing, result, List.mem_append, List.mem_singleton] at member
    rcases member with old | new
    · have other : joined.key ≠ state.key := fun same => fresh (same ▸ List.mem_map_of_mem old)
      exact Or.inr ⟨joined, old, rfl, by simp [other]⟩
    · subst joined
      exact Or.inl ⟨rfl, fresh, rfl⟩

theorem placed_place (consistent : graph.Consistent) (id : StateId) (state : State)
    : Placed id state graph (graph.place id state).1 (graph.place id state).2 := by
  cases found : graph.nodeOfKey? state.key with
  | some node =>
      have position : (graph.place id state).1 = node := by simp only [place, found]
      exact position ▸ placed_known consistent found
  | none =>
      have position : (graph.place id state).1 = graph.nodes.length := by
        simp only [place, found]
      exact position ▸ placed_new consistent (nodeOfKey?_eq_none_iff.mp found)

theorem Placed.here_iff {id : StateId} {state : State} {node : Nat} {placed : Graph}
    (arrival : Placed id state graph node placed) {other : Nat}
    : placed.keys[other]? = some state.key ↔ other = node := by
  refine ⟨fun there => ?_, fun same => same ▸ arrival.here⟩
  obtain ⟨bound, _⟩ := List.getElem?_eq_some_iff.mp there
  exact (List.getElem?_inj bound arrival.consistent.distinct).mp (there.trans arrival.here.symm)

/-- A key that arrived before has its node where it was. -/
theorem Placed.stays_iff {id : StateId} {state : State} {node : Nat} {placed : Graph}
    (arrival : Placed id state graph node placed) {key : Key} (old : key ∈ graph.keys)
    {other : Nat}
    : placed.keys[other]? = some key ↔ graph.keys[other]? = some key := by
  refine ⟨fun now => ?_, arrival.stays other key⟩
  obtain ⟨position, there⟩ := List.mem_iff_getElem?.mp old
  have still := arrival.stays position key there
  obtain ⟨bound, _⟩ := List.getElem?_eq_some_iff.mp still
  rw [← (List.getElem?_inj bound arrival.consistent.distinct).mp (still.trans now.symm)]
  exact there

-----------------------------------------------------------------------------------------
-- Steps of a build
-----------------------------------------------------------------------------------------

theorem states_enter {entries : List Entry} {arrival : Entry}
    (fresh : arrival.state ∉ entries.map Entry.state)
    : enter entries arrival = entries ++ [arrival] := by
  have none : ¬ (entries.any fun entry => entry.state = arrival.state) = true := by
    simpa using fresh
  rw [enter, if_neg none]

/-- Once a state has its node and its live referents are recorded there, it is done. -/
theorem Reflects.extend (reflects : Reflects program membership done graph) {id : StateId}
    {state : State} (registered : program.registry.get? id = some state) (fresh : id ∉ done)
    {node : Nat} {placed next : Graph} (arrival : Placed id state graph node placed)
    (consistent : next.Consistent) (nodes : next.nodes = placed.nodes)
    (entries : next.entries = placed.entries)
    (recorded
      : ∀ other key,
          next.Recorded other key
          ↔ placed.Recorded other key
            ∨ (other = node ∧ ∃ referent, program.Live id referent ∧ key = referent.key))
    : Reflects program (Function.update membership id none) (done ++ [id]) next := by
  have own := Program.keyOf?_of_get? registered
  have keysNext : next.keys = placed.keys := congrArg (List.map Node.key) nodes
  have listed : id ∉ graph.entries.map Entry.state := by
    rw [← states, reflects.listed]
    exact fresh
  have entriesNext := (entries.trans arrival.entries).trans (states_enter listed)
  have older : ∀ entry ∈ graph.entries, entry.state ≠ id :=
    fun entry member same => listed (same ▸ List.mem_map_of_mem member)
  refine ⟨consistent, ?_, ?_, ?_, ?_, ?_, ?_⟩
  · intro key
    rw [keysNext, arrival.arrived, reflects.arrived]
    simp [or_and_right, exists_or, own, eq_comm]
  · intro found member
    rw [nodes] at member
    rw [List.filter_append]
    rcases arrival.joined found member with ⟨key, absent, only⟩ | ⟨old, oldMember, key, joined⟩
    · have none : done.filter (fun id => program.keyOf? id = some found.key) = [] := by
        refine List.filter_eq_nil_iff.mpr fun other otherDone same => absent ?_
        exact (reflects.arrived _).mpr ⟨other, otherDone, key ▸ of_decide_eq_true same⟩
      rw [only, none, key]
      simp [own]
    · rw [joined, key, reflects.grouped old oldMember]
      by_cases same : old.key = state.key
      · simp [own, same]
      · simp [own, same, Ne.symm same]
  · rw [states, entriesNext, List.map_append, ← states, reflects.listed]
    rfl
  · rw [entriesNext, keysNext]
    refine List.forall_mem_append.mpr ⟨fun entry member => ?_, List.forall_mem_singleton.mpr ?_⟩
    · obtain ⟨known, found, place, name⟩ := reflects.located entry member
      exact ⟨known, found, arrival.stays _ _ place, name⟩
    · exact ⟨state, registered, arrival.here, rfl⟩
  · rw [entriesNext]
    refine List.forall_mem_append.mpr ⟨fun entry member => ?_, List.forall_mem_singleton.mpr ?_⟩
    · rw [Function.update_of_ne (older entry member)]
      exact reflects.marked entry member
    · exact (Function.update_self id none membership).symm
  · intro other key
    rw [recorded, arrival.recorded, reflects.recorded, keysNext]
    simp only [List.mem_append, List.mem_singleton, or_and_right, exists_or, exists_eq_left, own,
      Option.some.injEq, exists_eq_left', arrival.here_iff]
    refine or_congr_left (exists_congr fun old => and_congr_right fun oldDone => ?_)
    refine and_congr_left fun _ => exists_congr fun found => and_congr_right fun key => ?_
    exact (arrival.stays_iff ((reflects.arrived found).mpr ⟨old, oldDone, key⟩)).symm

/-- With an exact memo, a state is added exactly when it is resolvable, and the memo stays exact. -/
theorem Reflects.add {memo : Memo} (reflects : Reflects program membership done graph)
    (exact : memo.Exact program) {id : StateId} (fresh : id ∉ done)
    : match graph.add program memo id with
      | (.error error, _, _) => ¬ program.Resolvable id ∧ ∃ unknown, error = .unknownState unknown
      | (.ok _, next, later) =>
          program.Resolvable id
          ∧ later.Exact program
          ∧ Reflects program (Function.update membership id none) (done ++ [id]) next := by
  unfold Graph.add Registry.get
  cases registered : program.registry.get? id with
  | none =>
      refine ⟨fun ⟨state, found, _⟩ => ?_, id, rfl⟩
      rw [registered] at found
      cases found
  | some state =>
      have arrival := placed_place reflects.consistent id state
      have live : ∀ referent, program.Live id referent
          ↔ ¬ program.Preset state
            ∧ program.Refers state.role.stage state.formula referent
            ∧ ¬ Program.SelfReference state referent := by
        simp [Program.Live, registered]
      dsimp only
      by_cases preset : program.Preset state
      · -- The value comes from outside, so nothing is live.
        rw [if_pos (Program.isBareInitializer_iff.mpr preset)]
        refine ⟨⟨state, registered, Or.inl preset⟩, exact, ?_⟩
        apply reflects.extend registered fresh arrival arrival.consistent rfl rfl
        simp [live, preset]
      · rw [if_neg (mt Program.isBareInitializer_iff.mp preset)]
        obtain ⟨resolves, kept⟩ :=
          Program.referents_resolves exact state.role.stage state.formula
        rcases outcome : program.referents memo state.role.stage state.formula with
          ⟨error | referents, later⟩
        · rw [outcome] at resolves
          refine ⟨fun ⟨found, foundAt, resolvable⟩ => ?_, resolves.unknownState⟩
          cases registered.symm.trans foundAt
          exact resolvable.elim preset fun safe => safe error resolves
        · rw [outcome] at resolves kept
          obtain ⟨bound, _⟩ := List.getElem?_eq_some_iff.mp arrival.here
          obtain ⟨consistent, nodes, entries, recorded⟩ :=
            connect_spec arrival.consistent (by simpa [keys] using bound) state referents
          refine ⟨⟨state, registered, Or.inr resolves.1⟩, kept, ?_⟩
          apply reflects.extend registered fresh arrival consistent nodes entries
          intro other key
          rw [recorded]
          simp only [live, preset, resolves.2, ← isOwn_iff, Bool.not_eq_true, and_assoc,
            not_false_eq_true, true_and]

/-- Entries and nodes may get other clusters. -/
theorem Reflects.remark (reflects : Reflects program membership done graph) {next : Graph}
    (same : graph.SameWiring next)
    (nodes
      : ∀ node ∈ next.nodes, ∃ old ∈ graph.nodes, node.key = old.key ∧ node.states = old.states)
    (change : Entry → Option ClusterId) {marks : StateId → Option ClusterId}
    (entries : next.entries = graph.entries.map fun entry => { entry with cluster := change entry })
    (marked : ∀ entry ∈ graph.entries, change entry = marks entry.state)
    : Reflects program marks done next where
  consistent := same.consistent reflects.consistent
  arrived := same.keys ▸ reflects.arrived
  grouped node member := by
    obtain ⟨old, oldMember, key, states⟩ := nodes node member
    rw [states, key]
    exact reflects.grouped old oldMember
  listed := by
    rw [← reflects.listed, states, states, entries, List.map_map]
    rfl
  located entry member := by
    rw [entries] at member
    obtain ⟨old, oldMember, rfl⟩ := List.mem_map.mp member
    rw [same.keys]
    exact reflects.located old oldMember
  marked entry member := by
    rw [entries] at member
    obtain ⟨old, oldMember, rfl⟩ := List.mem_map.mp member
    exact marked old oldMember
  recorded node key := by
    rw [same.recorded_iff, same.keys]
    exact reflects.recorded node key

/-- A state that has arrived can be marked as member of a cluster. -/
theorem Reflects.setCluster (reflects : Reflects program membership done graph) {id : StateId}
    (present : id ∈ done) (cluster : ClusterId)
    : ∃ next,
        graph.setCluster id cluster = .ok next
        ∧ Reflects program (Function.update membership id (some cluster)) done next := by
  have known : graph.entry? id ≠ none := by
    rw [← reflects.listed] at present
    obtain ⟨entry, member, same⟩ := List.mem_map.mp present
    intro missing
    exact List.find?_eq_none.mp missing entry member (decide_eq_true same)
  obtain ⟨found, foundAt⟩ := Option.ne_none_iff_exists'.mp known
  simp only [Graph.setCluster, Graph.entry, foundAt, Except.ok.injEq, exists_eq_left']
  refine reflects.remark ?_ ?_
    (fun entry => if entry.state = id then some cluster else entry.cluster) ?_ ?_
  · exact ⟨map_key_modify _ _ _ fun _ => rfl, rfl, rfl⟩
  · intro node member
    obtain ⟨position, there⟩ := List.mem_iff_getElem?.mp member
    rw [List.getElem?_modify] at there
    obtain ⟨old, oldThere, rfl⟩ := Option.map_eq_some_iff.mp there
    refine ⟨old, List.mem_of_getElem? oldThere, ?_⟩
    split <;> exact ⟨rfl, rfl⟩
  · refine List.map_congr_left fun entry _ => ?_
    split <;> rfl
  · intro entry member
    rw [Function.update_apply, reflects.marked entry member]

/-- The cluster that a set of clusters assigns to a state. -/
def assigned (clusters : Option ClusterSet) (id : StateId) : Option ClusterId :=
  clusters.bind fun set => set.clusterOf? id

/-- What comes of adding states to those that are done: a graph that reflects them all, or an
unknown state behind one of them.
-/
def Outcome (program : Program) (clusters : Option ClusterSet) (done states : List StateId)
    : Except Error Graph → Prop
  | .error error =>
      (∃ id ∈ states, ¬ program.Resolvable id) ∧ ∃ unknown, error = .unknownState unknown
  | .ok next =>
      (∀ id ∈ states, program.Resolvable id)
      ∧ Reflects program (assigned clusters) (done ++ states) next

/-- After a state has arrived it gets the cluster that it is assigned, which never fails. -/
theorem Reflects.addAll_cons {clusters : Option ClusterSet} {memo later : Memo} {id : StateId}
    {node : Nat} {placed : Graph}
    (reflects
      : Reflects program (Function.update (assigned clusters) id none) (done ++ [id]) placed)
    (added : graph.add program memo id = (.ok node, placed, later)) (rest : List StateId)
    : ∃ next,
        Reflects program (assigned clusters) (done ++ [id]) next
        ∧ graph.addAll program memo clusters (id :: rest)
          = next.addAll program later clusters rest := by
  simp only [Graph.addAll, added]
  cases membership : clusters.bind fun set => set.clusterOf? id with
  | none =>
      have same : Function.update (assigned clusters) id none = assigned clusters :=
        Function.update_eq_self_iff.mpr membership.symm
      exact ⟨placed, same ▸ reflects, rfl⟩
  | some cluster =>
      have same : Function.update (assigned clusters) id (some cluster) = assigned clusters :=
        Function.update_eq_self_iff.mpr membership.symm
      have present : id ∈ done ++ [id] := List.mem_append_right _ (List.mem_singleton_self _)
      obtain ⟨marked, success, markedReflects⟩ := reflects.setCluster present cluster
      rw [Function.update_idem, same] at markedReflects
      exact ⟨marked, markedReflects, by simp only [success]⟩

/-- States that arrive in a row are all added exactly when all are resolvable, by induction on the
states.
-/
theorem Reflects.addAll {clusters : Option ClusterSet} {memo : Memo}
    (reflects : Reflects program (assigned clusters) done graph) (exact : memo.Exact program)
    (states : List StateId) (distinct : (done ++ states).Nodup)
    : Outcome program clusters done states (graph.addAll program memo clusters states).1 := by
  induction states generalizing done graph memo with
  | nil => exact ⟨nofun, (List.append_nil done).symm ▸ reflects⟩
  | cons id rest ih =>
      have fresh : id ∉ done := fun old =>
        (List.nodup_append.mp distinct).2.2 id old id List.mem_cons_self rfl
      have arrival := reflects.add exact fresh
      rcases outcome : graph.add program memo id with ⟨error | node, placed, later⟩
      · rw [outcome] at arrival
        simp only [Graph.addAll, outcome]
        exact ⟨⟨id, List.mem_cons_self, arrival.1⟩, arrival.2⟩
      · rw [outcome] at arrival
        obtain ⟨resolvable, kept, placedReflects⟩ := arrival
        obtain ⟨next, nextReflects, same⟩ := placedReflects.addAll_cons outcome rest
        rw [List.append_cons] at distinct
        have others := ih nextReflects kept distinct
        rw [same]
        cases result : (next.addAll program later clusters rest).1 with
        | error error =>
            rw [result] at others
            obtain ⟨⟨other, member, unresolvable⟩, unknown⟩ := others
            exact ⟨⟨other, List.mem_cons_of_mem _ member, unresolvable⟩, unknown⟩
        | ok last =>
            rw [result] at others
            refine ⟨List.forall_mem_cons.mpr ⟨resolvable, others.1⟩, ?_⟩
            rw [List.append_cons]
            exact others.2

-----------------------------------------------------------------------------------------
-- The whole build
-----------------------------------------------------------------------------------------

/-- The keys of all live referents of listed states are keys of listed states. -/
def Closed (program : Program) (states : List StateId) : Prop :=
  ∀ id ∈ states,
    ∀ referent,
      program.Live id referent → ∃ other ∈ states, program.keyOf? other = some referent.key

/-- A key for which a reference waits is that of a live referent, and no state has it. -/
theorem Reflects.of_mem_parked (reflects : Reflects program membership done graph)
    {entry : Key × List (Nat × Reading)} (parked : entry ∈ graph.parked)
    : (∀ id ∈ done, program.keyOf? id ≠ some entry.1)
      ∧ ∃ id ∈ done, ∃ referent, program.Live id referent ∧ entry.1 = referent.key := by
  refine ⟨fun id member same => ?_, ?_⟩
  · have arrived := (reflects.arrived entry.1).mpr ⟨id, member, same⟩
    exact reflects.consistent.parkedAbsent entry parked arrived
  · obtain ⟨reference, waiting⟩ :=
      List.exists_mem_of_ne_nil _ (reflects.consistent.parkedUsed entry parked)
    have waits : graph.Waits reference.1 entry.1 :=
      ⟨entry.2, parked, List.mem_map_of_mem waiting⟩
    obtain ⟨id, member, _, live⟩ := (reflects.recorded _ _).mp (Or.inr waits)
    exact ⟨id, member, live⟩

theorem Reflects.parked_eq_nil_iff (reflects : Reflects program membership done graph)
    : graph.parked = [] ↔ Closed program done := by
  constructor
  · intro none id member referent live
    -- A listed state has a node, and what is recorded there can only be an edge.
    obtain ⟨own, key⟩ := live.exists_keyOf?
    obtain ⟨node, place⟩ := List.mem_iff_getElem?.mp
      ((reflects.arrived own).mpr ⟨id, member, key⟩)
    have recorded := (reflects.recorded node referent.key).mpr
      ⟨id, member, ⟨own, key, place⟩, referent, live, rfl⟩
    rcases recorded with ⟨dependency, there, _⟩ | ⟨waiting, parked, _⟩
    · exact (reflects.arrived referent.key).mp (List.mem_of_getElem? there)
    · rw [none] at parked
      cases parked
  · intro closed
    refine List.eq_nil_iff_forall_not_mem.mpr fun entry parked => ?_
    obtain ⟨absent, id, member, referent, live, same⟩ := reflects.of_mem_parked parked
    obtain ⟨other, otherMember, key⟩ := closed id member referent live
    exact absent other otherMember (same ▸ key)

/-- The edges are the live referents of the states that are done. -/
theorem Reflects.edge_iff (reflects : Reflects program membership done graph)
    {node dependency : Nat}
    : graph.Edge node dependency
      ↔ ∃ id ∈ done,
          (∃ own, program.keyOf? id = some own ∧ graph.keys[node]? = some own)
          ∧ ∃ referent,
              program.Live id referent ∧ graph.keys[dependency]? = some referent.key := by
  have consistent := reflects.consistent
  constructor
  · intro edge
    have bound : dependency < graph.keys.length := by
      simpa [keys] using consistent.inside node dependency edge
    have there := List.getElem?_eq_getElem bound
    obtain ⟨id, member, place, referent, live, same⟩ :=
      (reflects.recorded node _).mp (Or.inl ⟨dependency, there, edge⟩)
    exact ⟨id, member, place, referent, live, same ▸ there⟩
  · rintro ⟨id, member, place, referent, live, there⟩
    have recorded := (reflects.recorded node _).mpr ⟨id, member, place, referent, live, rfl⟩
    rcases recorded with ⟨other, otherThere, edge⟩ | ⟨waiting, parked, _⟩
    · obtain ⟨bound, _⟩ := List.getElem?_eq_some_iff.mp there
      rw [(List.getElem?_inj bound consistent.distinct).mp (there.trans otherThere.symm)]
      exact edge
    · exact absurd (List.mem_of_getElem? there) (consistent.parkedAbsent _ parked)

theorem Reflects.exists_entry (reflects : Reflects program membership done graph) {id : StateId}
    (member : id ∈ done)
    : ∃ entry,
        graph.entry? id = some entry
        ∧ program.keyOf? id = graph.keys[entry.node]?
        ∧ program.keyOf? id ≠ none
        ∧ (program.registry.get? id).map State.name = some entry.name
        ∧ entry.cluster = membership id := by
  rw [← reflects.listed] at member
  obtain ⟨listed, listedMember, same⟩ := List.mem_map.mp member
  cases found : graph.entry? id with
  | none => exact absurd (decide_eq_true same) (List.find?_eq_none.mp found listed listedMember)
  | some entry =>
      have inside := List.mem_of_find?_eq_some found
      have state : entry.state = id := by simpa using List.find?_some found
      obtain ⟨known, registered, place, name⟩ := reflects.located entry inside
      rw [state] at registered
      have key := Program.keyOf?_of_get? registered
      refine ⟨entry, rfl, key.trans place.symm, by simp [key], ?_, ?_⟩
      · rw [registered, Option.map_some, name]
      · rw [← state]
        exact reflects.marked entry inside

/-- A node is called by the name of the first state that arrived with its key. -/
theorem Reflects.nodeName_eq (reflects : Reflects program membership done graph) {node : Nat}
    {key : Key} (place : graph.keys[node]? = some key)
    : ((done.find? fun id => program.keyOf? id = some key).bind program.registry.get?).map
        State.name
      = some (graph.nodeName node) := by
  obtain ⟨id, member, own⟩ := (reflects.arrived key).mp (List.mem_of_getElem? place)
  cases found : done.find? fun id => program.keyOf? id = some key with
  | none => exact absurd (decide_eq_true own) (List.find?_eq_none.mp found id member)
  | some first =>
      obtain ⟨entry, entryAt, _, _, name, _⟩ :=
        reflects.exists_entry (List.mem_of_find?_eq_some found)
      rw [keys, List.getElem?_map] at place
      obtain ⟨there, thereAt, rfl⟩ := Option.map_eq_some_iff.mp place
      have states := reflects.grouped there (List.mem_of_getElem? thereAt)
      rw [Option.bind_some, name, nodeName, thereAt, Option.bind_some, states, List.head?_filter,
        found, Option.bind_some, entryAt]

/-- A build from an exact memo gives a graph that reflects the states if they are resolvable and
closed. Otherwise it fails, with a parked key of such a graph if all states are resolvable.
-/
theorem build_spec {memo : Memo} (exact : memo.Exact program) (clusters : Option ClusterSet)
    {states : List StateId} (distinct : states.Nodup)
    : (∃ graph,
        (build program memo clusters states).1 = .ok graph
        ∧ Reflects program (assigned clusters) states graph
        ∧ (∀ id ∈ states, program.Resolvable id)
        ∧ Closed program states)
      ∨ (∃ graph key waiting,
          (build program memo clusters states).1
            = .error (.danglingReference key
                (waiting.map fun reference => graph.nodeName reference.1))
          ∧ Reflects program (assigned clusters) states graph
          ∧ (∀ id ∈ states, program.Resolvable id)
          ∧ (key, waiting) ∈ graph.parked)
      ∨ ∃ unknown,
          (build program memo clusters states).1 = .error (.unknownState unknown)
          ∧ ∃ id ∈ states, ¬ program.Resolvable id := by
  have added := (reflects_empty program (assigned clusters)).addAll exact states
    (by simpa using distinct)
  unfold build
  rcases outcome : empty.addAll program memo clusters states with ⟨error | graph, later⟩
  · rw [outcome] at added
    obtain ⟨unresolvable, unknown, same⟩ := added
    exact Or.inr (Or.inr ⟨unknown, congrArg Except.error same, unresolvable⟩)
  · rw [outcome] at added
    obtain ⟨resolvable, reflects⟩ := added
    rw [List.nil_append] at reflects
    dsimp only
    cases parked : graph.parked with
    | nil =>
        refine Or.inl ⟨graph, by simp only [finish, parked], reflects, resolvable, ?_⟩
        exact reflects.parked_eq_nil_iff.mp parked
    | cons entry rest =>
        have waiting : entry ∈ graph.parked := parked ▸ List.mem_cons_self
        refine Or.inr (Or.inl ⟨graph, entry.1, entry.2, ?_, reflects, resolvable, waiting⟩)
        simp only [finish, parked]

theorem exists_build_iff {memo : Memo} (exact : memo.Exact program) (clusters : Option ClusterSet)
    {states : List StateId} (distinct : states.Nodup)
    : (∃ graph, (build program memo clusters states).1 = .ok graph)
      ↔ (∀ id ∈ states, program.Resolvable id) ∧ Closed program states := by
  rcases build_spec exact clusters distinct with
    ⟨graph, built, _, resolvable, closed⟩ | ⟨graph, key, waiting, failed, reflects, _, parked⟩
      | ⟨unknown, failed, id, member, unresolvable⟩
  · exact ⟨fun _ => ⟨resolvable, closed⟩, fun _ => ⟨graph, built⟩⟩
  · rw [failed]
    refine ⟨nofun, fun ⟨_, closed⟩ => ?_⟩
    rw [reflects.parked_eq_nil_iff.mpr closed] at parked
    cases parked
  · rw [failed]
    exact ⟨nofun, fun ⟨resolvable, _⟩ => absurd (resolvable id member) unresolvable⟩

theorem reflects_of_build {memo : Memo} (exact : memo.Exact program) {clusters : Option ClusterSet}
    {states : List StateId} (distinct : states.Nodup)
    (built : (build program memo clusters states).1 = .ok graph)
    : Reflects program (assigned clusters) states graph := by
  rcases build_spec exact clusters distinct with
    ⟨same, sameBuilt, reflects, _⟩ | ⟨_, _, _, failed, _⟩ | ⟨_, failed, _⟩
  · cases built.symm.trans sameBuilt
    exact reflects
  · cases built.symm.trans failed
  · cases built.symm.trans failed

-----------------------------------------------------------------------------------------
-- The memo of a build
-----------------------------------------------------------------------------------------

section Keeps

variable (keeps : Memo → Prop)
  (step : ∀ memo stage formula, keeps memo → keeps (program.referents memo stage formula).2)
include step

/-- What resolution keeps true of the memo is kept when a state is added, even if that fails. -/
theorem add_keeps {memo : Memo} (kept : keeps memo) (graph : Graph) (id : StateId)
    : keeps (graph.add program memo id).2.2 := by
  unfold Graph.add
  split
  · exact kept
  · dsimp only
    split
    · exact kept
    · rename_i state _ _
      have later := step memo state.role.stage state.formula kept
      split <;> rename_i outcome
      · rw [outcome] at later
        exact later
      · rw [outcome] at later
        exact later

/-- It is kept from one state to the next, by induction on the states. -/
theorem addAll_keeps {memo : Memo} (kept : keeps memo) (graph : Graph)
    (clusters : Option ClusterSet) (states : List StateId)
    : keeps (graph.addAll program memo clusters states).2 := by
  induction states generalizing graph memo with
  | nil => exact kept
  | cons id rest ih =>
      have later := add_keeps keeps step kept graph id
      unfold Graph.addAll
      split <;> rename_i outcome
      · rw [outcome] at later
        exact later
      · rw [outcome] at later
        split
        · exact ih later _
        · split
          · exact later
          · exact ih later _

/-- What resolution keeps true of the memo is kept by a build, even if it fails. -/
theorem build_keeps {memo : Memo} (kept : keeps memo) (clusters : Option ClusterSet)
    (states : List StateId)
    : keeps (build program memo clusters states).2 := by
  have later := addAll_keeps keeps step kept .empty clusters states
  unfold build
  split <;> rename_i outcome
  · rw [outcome] at later
    exact later
  · rw [outcome] at later
    exact later

end Keeps

theorem exact_add {memo : Memo} (exact : memo.Exact program) (graph : Graph) (id : StateId)
    : (graph.add program memo id).2.2.Exact program := by
  apply add_keeps (·.Exact program) ?_ exact
  intro memo stage formula exact
  exact (Program.referents_resolves exact stage formula).2

end Graph

end StepPlan
