import StepPlan.Proofs.Schedule.Separation

/-! Schedules in which no clusters compete. If all chosen states have one membership, ready jobs are
issued in the order in which they became ready. The queue then always holds first the jobs that may
join the latest group and after them those that depend on it, so every job of a group depends on the
group before. The groups are therefore the levels of the dependencies, and no schedule has fewer.
-/

namespace StepPlan

namespace Workload

/-- All jobs have the same membership. -/
def OneMembership (work : Workload) : Prop :=
  ∀ job other, job < work.size → other < work.size → work.clusterOf job = work.clusterOf other

/-- A job rests on a group of jobs if it depends on one of them. -/
def RestsOn (work : Workload) (job : Nat) (group : List Nat) : Prop :=
  ∃ other ∈ group, work.DependsOn job other

/-- A group stands on another one if all its jobs rest on it. -/
def StandsOn (work : Workload) (later earlier : List Nat) : Prop :=
  ∀ job ∈ later, work.RestsOn job earlier

-----------------------------------------------------------------------------------------
-- The queue behind the latest group
-----------------------------------------------------------------------------------------

/-- The groups, latest first, stand on one another. The ready jobs are divided: those in front rest
on the group before the latest and not on the latest, and those behind rest on the latest.
-/
structure Levelled (work : Workload) (groups : List (List Nat)) (ready : List Nat) : Prop where
  stacked : groups.IsChain work.StandsOn
  queued
    : ∀ group earlier,
        groups = group :: earlier
        → ∃ peers followers,
            ready = peers ++ followers
            ∧ (∀ job ∈ peers, ¬ work.RestsOn job group)
            ∧ (∀ before ∈ earlier.head?, work.StandsOn peers before)
            ∧ work.StandsOn followers group

variable {work : Workload}

/-- A job that rests on the latest group starts a group of its own. -/
theorem collect_of_restsOn {group : List Nat} {earlier : List (List Nat)} {job : Nat}
    (rests : work.RestsOn job group)
    : work.collect (group :: earlier) job = [job] :: group :: earlier := by
  apply collect_of_not_joins
  intro joining
  obtain ⟨other, member, depends⟩ := rests
  exact (joins_iff.mp joining).2 other member depends

/-- A job of the common membership that does not rest on the latest group joins it. -/
theorem collect_of_not_restsOn (one : work.OneMembership) {group : List Nat}
    {earlier : List (List Nat)} (inhabited : group ≠ [])
    (known : ∀ other ∈ group, other < work.size) {job : Nat} (jobKnown : job < work.size)
    (free : ¬ work.RestsOn job group)
    : work.collect (group :: earlier) job = (group ++ [job]) :: earlier := by
  apply collect_of_joins
  apply joins_iff.mpr
  have lastKnown := known _ (List.getLast_mem inhabited)
  refine ⟨⟨_, List.getLast?_eq_some_getLast inhabited, one _ _ lastKnown jobKnown⟩, ?_⟩
  intro other member depends
  exact free ⟨other, member, depends⟩

/-- When the first ready job is issued, a new group begins with it, if none is there yet or it rests
on the latest. What was ready beside it may join it, and what it releases rests on it.
-/
theorem Levelled.begin {groups : List (List Nat)} {job : Nat} {rest released : List Nat}
    (stacked : ([job] :: groups).IsChain work.StandsOn)
    (standing : ∀ before ∈ groups.head?, work.StandsOn rest before)
    (independent : ∀ other ∈ rest, ¬ work.DependsOn other job)
    (dependent : ∀ other ∈ released, work.DependsOn other job)
    : work.Levelled ([job] :: groups) (rest ++ released) := by
  refine ⟨stacked, ?_⟩
  intro group earlier split
  cases split
  refine ⟨rest, released, rfl, ?_, standing, ?_⟩
  · intro other member rests
    obtain ⟨found, inside, depends⟩ := rests
    exact independent other member (List.mem_singleton.mp inside ▸ depends)
  · intro other member
    exact ⟨job, List.mem_singleton_self job, dependent other member⟩

/-- When the first ready job is issued and joins the latest group, the jobs that were ready beside
it still rest on what they rested on, and what it releases rests on the group.
-/
theorem Levelled.join {group peers followers released : List Nat} {earlier : List (List Nat)}
    {job : Nat} (stacked : (group :: earlier).IsChain work.StandsOn)
    (free : ∀ other ∈ job :: peers, ¬ work.RestsOn other group)
    (standing : ∀ before ∈ earlier.head?, work.StandsOn (job :: peers) before)
    (following : work.StandsOn followers group)
    (independent : ∀ other ∈ peers, ¬ work.DependsOn other job)
    (dependent : ∀ other ∈ released, work.DependsOn other job)
    : work.Levelled ((group ++ [job]) :: earlier) (peers ++ followers ++ released) := by
  constructor
  · cases earlier with
    | nil => exact List.isChain_singleton _
    | cons before further =>
        obtain ⟨stands, chain⟩ := List.isChain_cons_cons.mp stacked
        have joins := standing before rfl job List.mem_cons_self
        exact .cons_cons
          (List.forall_mem_append.mpr ⟨stands, List.forall_mem_singleton.mpr joins⟩) chain
  · intro latest others split
    cases split
    refine ⟨peers, followers ++ released, by simp, ?_, ?_, List.forall_mem_append.mpr ⟨?_, ?_⟩⟩
    · intro other member rests
      obtain ⟨found, inside, depends⟩ := rests
      rcases List.mem_append.mp inside with old | new
      · exact free other (List.mem_cons_of_mem _ member) ⟨found, old, depends⟩
      · exact independent other member (List.mem_singleton.mp new ▸ depends)
    · intro before present other member
      exact standing before present other (List.mem_cons_of_mem _ member)
    · intro other member
      obtain ⟨found, inside, depends⟩ := following other member
      exact ⟨found, List.mem_append_left _ inside, depends⟩
    · intro other member
      exact ⟨job, by simp, dependent other member⟩

/-- Issuing the first ready job keeps the groups and the queue levelled. -/
theorem Levelled.collect {groups : List (List Nat)} {job : Nat} {rest released : List Nat}
    (levelled : work.Levelled groups (job :: rest)) (one : work.OneMembership)
    (inhabited : ∀ group ∈ groups, group ≠ [])
    (known : ∀ group ∈ groups, ∀ other ∈ group, other < work.size) (jobKnown : job < work.size)
    (independent : ∀ other ∈ rest, ¬ work.DependsOn other job)
    (dependent : ∀ other ∈ released, work.DependsOn other job)
    : work.Levelled (work.collect groups job) (rest ++ released) := by
  cases groups with
  | nil => exact .begin (List.isChain_singleton _) (by simp) independent dependent
  | cons group earlier =>
      obtain ⟨peers, followers, ready, free, standing, following⟩ :=
        levelled.queued group earlier rfl
      cases peers with
      | nil =>
          -- Nothing may join any more: the job is the first that rests on the latest group.
          cases ready
          have rests := following job List.mem_cons_self
          rw [collect_of_restsOn rests]
          refine .begin (.cons_cons ?_ levelled.stacked) ?_ independent dependent
          · exact List.forall_mem_singleton.mpr rests
          · intro before present other member
            cases present
            exact following other (List.mem_cons_of_mem _ member)
      | cons first peers =>
          cases ready
          rw [collect_of_not_restsOn one (inhabited group List.mem_cons_self)
            (known group List.mem_cons_self) jobKnown (free job List.mem_cons_self)]
          refine .join levelled.stacked free standing following ?_ dependent
          intro other member
          exact independent other (List.mem_append_left _ member)

end Workload

-----------------------------------------------------------------------------------------
-- The whole run
-----------------------------------------------------------------------------------------

namespace Progress

variable {work : Workload}

/-- With one membership the next job is the one that has been ready longest. -/
theorem Valid.next?_eq_head {progress : Progress} (valid : progress.Valid work)
    (one : work.OneMembership) {job : Nat} (next : progress.next? work = some job)
    : ∃ rest, progress.ready = job :: rest := by
  obtain ⟨membership, _, found⟩ := Option.bind_eq_some_iff.mp next
  have same : work.clusterOf job = membership := by simpa using List.find?_some found
  have jobKnown := ((valid.mem_ready_iff job).mp (List.mem_of_find?_eq_some found)).1
  cases ready : progress.ready with
  | nil => simp [ready] at found
  | cons first rest =>
      have known := ((valid.mem_ready_iff first).mp (by simp [ready])).1
      have taken : work.clusterOf first = membership := (one first job known jobKnown).trans same
      rw [ready, List.find?_cons_of_pos (by simpa using taken)] at found
      cases found
      exact ⟨rest, rfl⟩

/-- The groups that the issued jobs make so far and the ready jobs are levelled. -/
structure ByLevel (work : Workload) (progress : Progress) : Prop where
  valid : progress.Valid work
  levelled : work.Levelled (progress.issued.foldl work.collect []) progress.ready

theorem byLevel_start (work : Workload) : (start work).ByLevel work := by
  refine ⟨valid_start work, .nil, ?_⟩
  intro group earlier split
  cases split

/-- Issuing the next job keeps the run by level. What is ready does not depend on the job, and what
the job releases does.
-/
theorem ByLevel.issue {progress : Progress} (byLevel : progress.ByLevel work)
    (one : work.OneMembership) {job : Nat} (next : progress.next? work = some job)
    : (progress.issue work job).ByLevel work := by
  obtain ⟨valid, levelled⟩ := byLevel
  have ready := (next?_eq_some next).1
  obtain ⟨rest, queue⟩ := valid.next?_eq_head one next
  refine ⟨valid.issue ready, ?_⟩
  have collected := work.collected_foldl progress.issued
  have known
      : ∀ group ∈ progress.issued.foldl work.collect [], ∀ other ∈ group, other < work.size := by
    intro group member other inside
    apply valid.known
    rw [← collected.flatten]
    exact List.mem_flatten.mpr ⟨group, List.mem_reverse.mpr member, inside⟩
  simp only [Progress.issue, queue, List.erase_cons_head, List.foldl_append, List.foldl_cons,
    List.foldl_nil]
  rw [queue] at levelled
  refine levelled.collect one collected.inhabited known ((valid.mem_ready_iff job).mp ready).1 ?_ ?_
  · intro other member depends
    exact (valid.released ready depends).2.2 (by simp [queue, member])
  · intro other member
    simp only [List.mem_filter, Bool.and_eq_true, List.contains_iff_mem] at member
    exact member.2.1

end Progress

namespace Workload

variable {work : Workload} {graph : Graph} {chosen : List StateId}

/-- With one membership every group stands on the group before it. -/
theorem OneMembership.standsOn (one : work.OneMembership) {position : Nat}
    {earlier later : List Nat} (earlierAt : work.jobGroups[position]? = some earlier)
    (laterAt : work.jobGroups[position + 1]? = some later)
    : work.StandsOn later earlier := by
  have finished : (Progress.drain work work.size (.start work)).ByLevel work :=
    Progress.drain_induction (fun _ _ held next => held.issue one next) work.size
      (Progress.byLevel_start work)
  exact jobGroups_neighbours finished.levelled.stacked earlierAt laterAt

/-- Jobs have one membership if the states that they represent do. -/
theorem Represents.oneMembership (represents : work.Represents graph chosen)
    (alike
      : ∀ state ∈ chosen,
          ∀ other ∈ chosen, graph.stateCluster? state = graph.stateCluster? other)
    : work.OneMembership := by
  intro job other known otherKnown
  obtain ⟨state, listed⟩ := represents.exists_state known
  obtain ⟨otherState, otherListed⟩ := represents.exists_state otherKnown
  rw [← represents.stateCluster listed, ← represents.stateCluster otherListed]
  exact alike state ((represents.mem_iff state).mpr ⟨job, listed⟩) otherState
    ((represents.mem_iff otherState).mpr ⟨other, otherListed⟩)

/-- No group is without states. -/
theorem Represents.states_ne_nil (represents : work.Represents graph chosen) {group : Group}
    (member : group ∈ work.groups)
    : group.states ≠ [] := by
  obtain ⟨jobs, jobsMember, rfl⟩ := List.mem_map.mp member
  obtain ⟨job, inside⟩ := List.exists_mem_of_ne_nil _ (jobGroups_ne_nil jobsMember)
  have issued : job ∈ work.order := by
    rw [← jobGroups_flatten]
    exact List.mem_flatten.mpr ⟨jobs, jobsMember, inside⟩
  obtain ⟨state, listed⟩ := represents.exists_state (work.order_finished.1.known job issued)
  exact List.ne_nil_of_mem (List.mem_flatMap.mpr ⟨job, inside, listed⟩)

/-- With one membership every state of a group needs a state of the group before it. -/
theorem Represents.needs_before (represents : work.Represents graph chosen)
    (one : work.OneMembership) {position : Nat} {earlier later : Group}
    (earlierAt : work.groups[position]? = some earlier)
    (laterAt : work.groups[position + 1]? = some later) {state : StateId}
    (member : state ∈ later.states)
    : ∃ other ∈ earlier.states, graph.Needs state other := by
  obtain ⟨jobs, jobsAt, _, statesIff⟩ := exists_jobGroup earlierAt
  obtain ⟨laterJobs, laterJobsAt, _, laterIff⟩ := exists_jobGroup laterAt
  obtain ⟨job, inside, listed⟩ := (laterIff state).mp member
  obtain ⟨other, otherInside, depends⟩ := one.standsOn jobsAt laterJobsAt job inside
  obtain ⟨otherState, otherListed⟩ :=
    represents.exists_state (represents.bounded job other depends).2
  exact ⟨otherState, (statesIff otherState).mpr ⟨other, otherInside, otherListed⟩,
    (represents.leads_iff_needs listed otherListed).mp (.single depends)⟩

end Workload

-----------------------------------------------------------------------------------------
-- Layers and chains
-----------------------------------------------------------------------------------------

namespace Graph

/-- A division of the chosen states into layers: each state is in one of them, and what it needs is
in earlier ones.
-/
structure Layering (graph : Graph) (chosen : List StateId) (layers : List (List StateId))
    : Prop where
  once : layers.flatten.Nodup
  exactly : ∀ state, state ∈ layers.flatten ↔ state ∈ chosen
  layered
    : ∀ (position otherPosition : Nat) (layer otherLayer : List StateId),
        layers[position]? = some layer
        → layers[otherPosition]? = some otherLayer
        → ∀ state ∈ layer,
            ∀ other ∈ otherLayer, graph.Needs state other → otherPosition < position

/-- A chain of nodes that hold chosen states, each of which leads to the next. -/
structure Chain (graph : Graph) (chosen : List StateId) (nodes : List Nat) : Prop where
  holds : ∀ node ∈ nodes, graph.Holds chosen node
  leads : nodes.IsChain graph.Path

/-- The length of the longest chain of nodes with chosen states strictly below a node. -/
def IsHeight (graph : Graph) (chosen : List StateId) (node height : Nat) : Prop :=
  IsGreatest {length | ∃ below, graph.Chain chosen (node :: below) ∧ below.length = length} height

variable {graph : Graph} {chosen : List StateId}

/-- The groups of a sound schedule are a layering. -/
theorem SoundSchedule.layering {groups : List Group} (sound : graph.SoundSchedule chosen groups)
    : graph.Layering chosen (groups.map Group.states) := by
  refine ⟨?_, ?_, ?_⟩
  · simpa [List.flatMap_def] using sound.once
  · simpa [List.flatMap_def] using sound.exactly
  · intro position otherPosition layer otherLayer layerAt otherAt state member other otherMember
    rw [List.getElem?_map] at layerAt otherAt
    obtain ⟨group, groupAt, rfl⟩ := Option.map_eq_some_iff.mp layerAt
    obtain ⟨otherGroup, otherGroupAt, rfl⟩ := Option.map_eq_some_iff.mp otherAt
    exact sound.layered position otherPosition group otherGroup groupAt otherGroupAt state member
      other otherMember

theorem Layering.exists_layer {layers : List (List StateId)}
    (layering : graph.Layering chosen layers) {state : StateId} (member : state ∈ chosen)
    : ∃ (position : Nat) (layer : List StateId),
        layers[position]? = some layer ∧ state ∈ layer := by
  obtain ⟨layer, layerMember, inside⟩ := List.mem_flatten.mp ((layering.exactly state).mpr member)
  obtain ⟨position, layerAt⟩ := List.mem_iff_getElem?.mp layerMember
  exact ⟨position, layer, layerAt, inside⟩

/-- In every layering there are as many layers below a state as a chain below its node is long, by
induction on the chain.
-/
theorem Layering.length_le {layers : List (List StateId)}
    (layering : graph.Layering chosen layers) {below : List Nat} {position : Nat}
    {layer : List StateId} (layerAt : layers[position]? = some layer) {state : StateId}
    (inside : state ∈ layer) {entry : Entry} (entryAt : graph.entry? state = some entry)
    (chain : graph.Chain chosen (entry.node :: below))
    : below.length ≤ position := by
  induction below generalizing position layer state entry with
  | nil => exact Nat.zero_le position
  | cons next rest ih =>
      obtain ⟨_, holds⟩ := List.forall_mem_cons.mp chain.holds
      obtain ⟨path, leads⟩ := List.isChain_cons_cons.mp chain.leads
      obtain ⟨other, chosenOther, otherEntry, otherAt, rfl⟩ := holds next List.mem_cons_self
      obtain ⟨otherPosition, otherLayer, otherLayerAt, otherInside⟩ :=
        layering.exists_layer chosenOther
      have lower := layering.layered position otherPosition layer otherLayer layerAt otherLayerAt
        state inside other otherInside ⟨entry, otherEntry, entryAt, otherAt, path⟩
      have bound := ih otherLayerAt otherInside otherAt ⟨holds, leads⟩
      exact Nat.lt_of_le_of_lt bound lower

/-- No chain has more nodes than a layering has layers. -/
theorem Layering.length_chain_le {layers : List (List StateId)}
    (layering : graph.Layering chosen layers) {nodes : List Nat}
    (chain : graph.Chain chosen nodes)
    : nodes.length ≤ layers.length := by
  cases nodes with
  | nil => exact Nat.zero_le _
  | cons node below =>
      obtain ⟨state, member, entry, entryAt, rfl⟩ := chain.holds node List.mem_cons_self
      obtain ⟨position, layer, layerAt, inside⟩ := layering.exists_layer member
      have bound := layering.length_le layerAt inside entryAt chain
      exact Nat.lt_of_le_of_lt bound (List.getElem?_eq_some_iff.mp layerAt).1

/-- A layering into levels: no layer is empty, and every state needs one of the layer before. -/
structure Levels (graph : Graph) (chosen : List StateId) (layers : List (List StateId)) : Prop
    extends graph.Layering chosen layers where
  known : ∀ state ∈ chosen, ∃ entry, graph.entry? state = some entry
  inhabited : ∀ layer ∈ layers, layer ≠ []
  needs
    : ∀ (position : Nat) (earlier later : List StateId),
        layers[position]? = some earlier
        → layers[position + 1]? = some later
        → ∀ state ∈ later, ∃ other ∈ earlier, graph.Needs state other

namespace Levels

variable {layers : List (List StateId)}

theorem mem_chosen (levels : graph.Levels chosen layers) {position : Nat} {layer : List StateId}
    (layerAt : layers[position]? = some layer) {state : StateId} (inside : state ∈ layer)
    : state ∈ chosen := by
  apply (levels.exactly state).mp
  exact List.mem_flatten.mpr ⟨layer, List.mem_of_getElem? layerAt, inside⟩

/-- A chain leads down from every state through all levels below it, by induction on the number of
these levels.
-/
theorem exists_chain (levels : graph.Levels chosen layers) {position : Nat}
    {layer : List StateId} (layerAt : layers[position]? = some layer) {state : StateId}
    (inside : state ∈ layer)
    : ∃ entry below,
        graph.entry? state = some entry
        ∧ graph.Chain chosen (entry.node :: below)
        ∧ below.length = position := by
  induction position generalizing layer state with
  | zero =>
      have member := levels.mem_chosen layerAt inside
      obtain ⟨entry, entryAt⟩ := levels.known state member
      refine ⟨entry, [], entryAt, ⟨?_, List.isChain_singleton _⟩, rfl⟩
      exact List.forall_mem_singleton.mpr ⟨state, member, entry, entryAt, rfl⟩
  | succ position ih =>
      have lower : position < layers.length :=
        Nat.lt_of_succ_lt (List.getElem?_eq_some_iff.mp layerAt).1
      have earlierAt := List.getElem?_eq_getElem lower
      obtain ⟨other, otherInside, entry, otherEntry, entryAt, otherAt, path⟩ :=
        levels.needs position _ layer earlierAt layerAt state inside
      obtain ⟨found, below, foundAt, chain, length⟩ := ih earlierAt otherInside
      cases otherAt.symm.trans foundAt
      refine ⟨entry, otherEntry.node :: below, entryAt, ⟨?_, .cons_cons path chain.leads⟩, ?_⟩
      · have held : graph.Holds chosen entry.node :=
          ⟨state, levels.mem_chosen layerAt inside, entry, entryAt, rfl⟩
        exact List.forall_mem_cons.mpr ⟨held, chain.holds⟩
      · exact congrArg (· + 1) length

/-- The level of a state is the height of its node. -/
theorem isHeight (levels : graph.Levels chosen layers) {position : Nat} {layer : List StateId}
    (layerAt : layers[position]? = some layer) {state : StateId} (inside : state ∈ layer)
    {entry : Entry} (entryAt : graph.entry? state = some entry)
    : graph.IsHeight chosen entry.node position := by
  constructor
  · obtain ⟨found, below, foundAt, chain, length⟩ := levels.exists_chain layerAt inside
    cases entryAt.symm.trans foundAt
    exact ⟨below, chain, length⟩
  · intro length bounded
    obtain ⟨below, chain, rfl⟩ := bounded
    exact levels.length_le layerAt inside entryAt chain

/-- A chain runs through all levels. -/
theorem exists_longest (levels : graph.Levels chosen layers)
    : ∃ nodes, graph.Chain chosen nodes ∧ nodes.length = layers.length := by
  cases count : layers.length with
  | zero => exact ⟨[], ⟨by simp, .nil⟩, rfl⟩
  | succ last =>
      have lastAt := List.getElem?_eq_getElem (show last < layers.length by omega)
      obtain ⟨state, inside⟩ :=
        List.exists_mem_of_ne_nil _ (levels.inhabited _ (List.mem_of_getElem? lastAt))
      obtain ⟨entry, below, _, chain, length⟩ := levels.exists_chain lastAt inside
      exact ⟨entry.node :: below, chain, congrArg (· + 1) length⟩

/-- A state is in the one level whose position is the height of its node. -/
theorem exists_height (levels : graph.Levels chosen layers) {state : StateId}
    (member : state ∈ chosen)
    : ∃ entry height,
        graph.entry? state = some entry
        ∧ graph.IsHeight chosen entry.node height
        ∧ height < layers.length
        ∧ ∀ (position : Nat) (layer : List StateId),
            layers[position]? = some layer → (state ∈ layer ↔ position = height) := by
  obtain ⟨entry, entryAt⟩ := levels.known state member
  obtain ⟨position, layer, layerAt, inside⟩ := levels.exists_layer member
  have height := levels.isHeight layerAt inside entryAt
  refine ⟨entry, position, entryAt, height, (List.getElem?_eq_some_iff.mp layerAt).1, ?_⟩
  intro other otherLayer otherAt
  constructor
  · intro otherInside
    exact (levels.isHeight otherAt otherInside entryAt).unique height
  · intro same
    subst other
    cases layerAt.symm.trans otherAt
    exact inside

/-- There are as many levels as the longest chain has nodes. -/
theorem isGreatest_length (levels : graph.Levels chosen layers)
    : IsGreatest {length | ∃ nodes, graph.Chain chosen nodes ∧ nodes.length = length}
        layers.length := by
  refine ⟨levels.exists_longest, ?_⟩
  intro length bounded
  obtain ⟨nodes, chain, rfl⟩ := bounded
  exact levels.length_chain_le chain

/-- No layering has fewer layers than there are levels. -/
theorem isLeast_length (levels : graph.Levels chosen layers)
    : IsLeast {count | ∃ others, graph.Layering chosen others ∧ others.length = count}
        layers.length := by
  refine ⟨⟨layers, levels.toLayering, rfl⟩, ?_⟩
  intro count bounded
  obtain ⟨others, layering, rfl⟩ := bounded
  obtain ⟨nodes, chain, length⟩ := levels.exists_longest
  exact length ▸ layering.length_chain_le chain

end Levels

/-- The groups of a schedule of states with one membership are levels. -/
theorem levels_groups {work : Workload} (represents : work.Represents graph chosen)
    (done : work.left = []) (one : work.OneMembership)
    : graph.Levels chosen (work.groups.map Group.states) := by
  refine ⟨(soundSchedule_groups represents done).layering, ?_, ?_, ?_⟩
  · intro state member
    obtain ⟨number, listed⟩ := (represents.mem_iff state).mp member
    obtain ⟨job, jobAt, _⟩ := Workload.mem_statesOf_iff.mp listed
    obtain ⟨entry, entryAt, _⟩ := represents.exists_entry jobAt listed
    exact ⟨entry, entryAt⟩
  · intro layer member
    obtain ⟨group, groupMember, rfl⟩ := List.mem_map.mp member
    exact represents.states_ne_nil groupMember
  · intro position earlier later earlierAt laterAt state member
    rw [List.getElem?_map] at earlierAt laterAt
    obtain ⟨group, groupAt, rfl⟩ := Option.map_eq_some_iff.mp earlierAt
    obtain ⟨laterGroup, laterGroupAt, rfl⟩ := Option.map_eq_some_iff.mp laterAt
    exact represents.needs_before one groupAt laterGroupAt member

/-- If all chosen states have the same membership, each is in the group whose position is the height
of its node. There are as many groups as the longest chain has nodes, and no layering has fewer.
-/
theorem schedule_levels (constructed : graph.Constructed) {groups : List Group}
    (scheduled : graph.schedule chosen = .ok groups)
    (alike
      : ∀ state ∈ chosen,
          ∀ other ∈ chosen, graph.stateCluster? state = graph.stateCluster? other)
    : (∀ state ∈ chosen,
        ∃ entry height,
          graph.entry? state = some entry
          ∧ graph.IsHeight chosen entry.node height
          ∧ height < groups.length
          ∧ ∀ (position : Nat) (group : Group),
              groups[position]? = some group → (state ∈ group.states ↔ position = height))
      ∧ IsGreatest {length | ∃ nodes, graph.Chain chosen nodes ∧ nodes.length = length}
          groups.length
      ∧ IsLeast {count | ∃ layers, graph.Layering chosen layers ∧ layers.length = count}
          groups.length := by
  obtain ⟨work, represents, done, rfl⟩ := schedule_eq_ok constructed.edgesInside scheduled
  have levels := levels_groups represents done (represents.oneMembership alike)
  have count : (work.groups.map Group.states).length = work.groups.length := List.length_map _
  refine ⟨?_, count ▸ levels.isGreatest_length, count ▸ levels.isLeast_length⟩
  intro state member
  obtain ⟨entry, height, entryAt, isHeight, bound, exactly⟩ := levels.exists_height member
  refine ⟨entry, height, entryAt, isHeight, count ▸ bound, ?_⟩
  intro position group groupAt
  exact exactly position group.states (by simp [groupAt])

/-- The states of the pairs and the link, in no particular order. -/
def scrambledStates : List StateId :=
  [.ofIndex 1, .ofIndex 3, .ofIndex 0, .ofIndex 4, .ofIndex 2]

/-- Without clusters the pairs and the link between them make three levels: `a2` waits for the link,
and the link and `b2` for `b1`.
-/
theorem schedule_levels_link
    : looseGraph.schedule scrambledStates
        = .ok
            [⟨none, [.ofIndex 0, .ofIndex 2]⟩, ⟨none, [.ofIndex 3, .ofIndex 4]⟩,
              ⟨none, [.ofIndex 1]⟩]
      ∧ IsGreatest
          {length | ∃ nodes, looseGraph.Chain scrambledStates nodes ∧ nodes.length = length} 3
      ∧ IsLeast
          {count | ∃ layers, looseGraph.Layering scrambledStates layers ∧ layers.length = count}
          3 := by
  have scheduled
      : looseGraph.schedule scrambledStates
        = .ok
            [⟨none, [.ofIndex 0, .ofIndex 2]⟩, ⟨none, [.ofIndex 3, .ofIndex 4]⟩,
              ⟨none, [.ofIndex 1]⟩] := by
    cbv
  have alike
      : ∀ state ∈ scrambledStates,
          ∀ other ∈ scrambledStates,
            looseGraph.stateCluster? state = looseGraph.stateCluster? other := by
    decide +kernel
  exact ⟨scheduled, (schedule_levels looseGraph_constructed scheduled alike).2⟩

end Graph

end StepPlan
