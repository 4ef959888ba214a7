import Mathlib.Data.List.Flatten
import Mathlib.Order.WellFounded
import StepPlan.Proofs.Schedule.Completeness
import StepPlan.Report

/-! Contiguous clusters. If the chosen states can be ordered at all such that the members of
every cluster stand next to one another, then the schedule orders them so. The greedy choice is
safe: under this condition a cluster that can run to its end is always ready when one has to be
started, and once started it never runs dry before its end.
-/

namespace StepPlan

open Relation

-----------------------------------------------------------------------------------------
-- Blocks
-----------------------------------------------------------------------------------------

/-- The items with a property stand next to one another. -/
def OneBlock {α : Type} (holds : α → Prop) (items : List α) : Prop :=
  ∃ before block after,
    items = before ++ block ++ after
    ∧ (∀ item ∈ block, holds item)
    ∧ ∀ item ∈ before ++ after, ¬ holds item

namespace OneBlock

variable {α β : Type} {holds : α → Prop} {items : List α}

theorem append_other (block : OneBlock holds items) {item : α} (other : ¬ holds item)
    : OneBlock holds (items ++ [item]) := by
  obtain ⟨before, inner, after, rfl, inside, outside⟩ := block
  refine ⟨before, inner, after ++ [item], by simp, inside, ?_⟩
  intro found member
  rw [← List.append_assoc, List.mem_append, List.mem_singleton] at member
  rcases member with earlier | same
  · exact outside found earlier
  · exact same ▸ other

theorem append_first (none : ∀ item ∈ items, ¬ holds item) {item : α} (first : holds item)
    : OneBlock holds (items ++ [item]) := by
  refine ⟨items, [item], [], by simp, ?_, by simpa using none⟩
  intro found member
  exact List.mem_singleton.mp member ▸ first

/-- An item with the property may follow another one: the block then reaches to the end. -/
theorem append_next (block : OneBlock holds items) {last item : α}
    (lastAt : items.getLast? = some last) (held : holds last) (next : holds item)
    : OneBlock holds (items ++ [item]) := by
  obtain ⟨before, inner, after, rfl, inside, outside⟩ := block
  have ends : after = [] := by
    by_contra nonempty
    rw [List.getLast?_append_of_ne_nil _ nonempty] at lastAt
    exact outside last (List.mem_append_right _ (List.mem_of_getLast? lastAt)) held
  subst ends
  refine ⟨before, inner ++ [item], [], by simp, ?_, outside⟩
  intro found member
  rcases List.mem_append.mp member with earlier | same
  · exact inside found earlier
  · exact List.mem_singleton.mp same ▸ next

/-- Blocks survive when every item is spelled out, if the parts share the property of the item. -/
theorem flatMap (block : OneBlock holds items) {spell : α → List β} {held : β → Prop}
    (same : ∀ item ∈ items, ∀ part ∈ spell item, held part ↔ holds item)
    : OneBlock held (items.flatMap spell) := by
  obtain ⟨before, inner, after, rfl, inside, outside⟩ := block
  refine ⟨before.flatMap spell, inner.flatMap spell, after.flatMap spell, by simp, ?_, ?_⟩
  · intro part member
    obtain ⟨item, itemMember, spelled⟩ := List.mem_flatMap.mp member
    exact (same item (by simp [itemMember]) part spelled).mpr (inside item itemMember)
  · intro part member
    rw [← List.flatMap_append] at member
    obtain ⟨item, itemMember, spelled⟩ := List.mem_flatMap.mp member
    have listed : item ∈ before ++ inner ++ after := by
      rcases List.mem_append.mp itemMember with front | back
      · simp [front]
      · simp [back]
    exact fun held => outside item itemMember ((same item listed part spelled).mp held)

/-- What stands between two items of a block is in the block. -/
theorem between (block : OneBlock holds items) {first middle last : α}
    (within : [first, middle, last].Sublist items) (firstHeld : holds first)
    (lastHeld : holds last)
    : holds middle := by
  obtain ⟨before, inner, after, rfl, inside, outside⟩ := block
  obtain ⟨early, late, split, earlyWithin, lateWithin⟩ := List.sublist_append_iff.mp within
  have noneLate : late = [] := by
    by_contra nonempty
    have ends := congrArg List.getLast? split
    rw [List.getLast?_append_of_ne_nil _ nonempty] at ends
    have member := lateWithin.mem (List.mem_of_getLast? ends.symm)
    exact outside last (List.mem_append_right _ member) lastHeld
  rw [noneLate, List.append_nil] at split
  obtain ⟨front, block, parts, frontWithin, blockWithin⟩ :=
    List.sublist_append_iff.mp (split ▸ earlyWithin)
  cases front with
  | nil =>
      rw [List.nil_append] at parts
      exact inside middle (blockWithin.mem (by simp [← parts]))
  | cons head rest =>
      have member : first ∈ before := frontWithin.mem ((List.cons.inj parts).1 ▸ by simp)
      exact absurd firstHeld (outside first (List.mem_append_left _ member))

/-- The same by position. -/
theorem between_idxOf [DecidableEq α] (block : OneBlock holds items) {first middle last : α}
    (member : middle ∈ items) (firstHeld : holds first) (lastMember : last ∈ items)
    (lastHeld : holds last) (lower : items.idxOf first ≤ items.idxOf middle)
    (upper : items.idxOf middle ≤ items.idxOf last)
    : holds middle := by
  obtain ⟨before, inner, after, rfl, inside, outside⟩ := block
  have firstLate : first ∉ before := fun front =>
    outside first (List.mem_append_left _ front) firstHeld
  have lastEarly : last ∈ before ++ inner := by
    rcases List.mem_append.mp lastMember with early | late
    · exact early
    · exact absurd lastHeld (outside last (List.mem_append_right _ late))
  rw [List.idxOf_append_of_mem lastEarly] at upper
  have lastBound := List.idxOf_lt_length_of_mem lastEarly
  have middleEarly : middle ∈ before ++ inner := by
    by_contra late
    rw [List.idxOf_append_of_notMem late] at upper
    omega
  rw [List.idxOf_append_of_mem middleEarly] at lower
  rcases List.mem_append.mp middleEarly with front | block
  · rw [List.append_assoc, List.idxOf_append_of_notMem firstLate,
      List.idxOf_append_of_mem front] at lower
    have bound := List.idxOf_lt_length_of_mem front
    omega
  · exact inside middle block

end OneBlock

-----------------------------------------------------------------------------------------
-- Orders in which clusters can run to their ends
-----------------------------------------------------------------------------------------

/-- Jobs can be ranked such that dependencies have lower ranks and nothing else stands between
two jobs of a cluster.
-/
structure Workload.ConvexRank (work : Workload) (rank : Nat → Nat) : Prop where
  lower : ∀ job other, work.DependsOn job other → rank other < rank job
  between
    : ∀ first middle last cluster,
        first < work.size
        → middle < work.size
        → last < work.size
        → work.clusterOf first = some cluster
        → work.clusterOf last = some cluster
        → rank first ≤ rank middle
        → rank middle ≤ rank last
        → work.clusterOf middle = some cluster

namespace Progress

variable {work : Workload} {progress : Progress}

/-- A job is open while it is not issued. -/
def Open (work : Workload) (progress : Progress) (job : Nat) : Prop :=
  job < work.size ∧ job ∉ progress.issued

/-- A cluster is self-contained exactly when its open jobs depend on no open job of another
membership. The search for whatever they wait for, over any number of steps, then never leaves
the cluster.
-/
theorem selfContained_iff (bounded : work.Bounded) {cluster : ClusterId}
    : progress.selfContained work cluster = true
      ↔ ∀ job other,
          progress.Open work job
          → work.clusterOf job = some cluster
          → work.DependsOn job other
          → other ∉ progress.issued
          → work.clusterOf other = some cluster := by
  have awaitedIff (job other : Nat)
      : other ∈ progress.awaited work job
        ↔ work.DependsOn job other ∧ other ∉ progress.issued := by
    simp [awaited, Workload.DependsOn]
  have leftIff (job : Nat)
      : job ∈ ((List.range work.size).filter fun job =>
          decide (work.clusterOf job = some cluster) && !progress.issued.contains job)
        ↔ progress.Open work job ∧ work.clusterOf job = some cluster := by
    simp only [Open, List.mem_filter, List.mem_range, Bool.and_eq_true, decide_eq_true_eq,
      Bool.not_eq_true', List.contains_eq_mem, decide_eq_false_iff_not]
    constructor
    · rintro ⟨known, member, fresh⟩
      exact ⟨⟨known, fresh⟩, member⟩
    · rintro ⟨⟨known, fresh⟩, member⟩
      exact ⟨known, member, fresh⟩
  unfold selfContained
  simp only [List.all_eq_true, decide_eq_true_eq]
  have reachedIff := Reach.mem_closure_iff
    (fun job member => ((leftIff job).mp member).1.1)
    (fun job other member => (bounded job other ((awaitedIff job other).mp member).1).2)
  constructor
  · intro contained job other isOpen member depends fresh
    refine contained other ((reachedIff other).mpr ⟨job, (leftIff job).mpr ⟨isOpen, member⟩, ?_⟩)
    exact .single ((awaitedIff job other).mpr ⟨depends, fresh⟩)
  · intro steps job reached
    obtain ⟨start, startLeft, path⟩ := (reachedIff job).mp reached
    have stays : progress.Open work job ∧ work.clusterOf job = some cluster := by
      induction path with
      | refl => exact (leftIff start).mp startLeft
      | @tail middle last _ step ih =>
          obtain ⟨depends, fresh⟩ := (awaitedIff middle last).mp step
          obtain ⟨isOpen, member⟩ :=
            ih ((reachedIff middle).mpr ⟨start, startLeft, by assumption⟩)
          exact ⟨⟨(bounded middle last depends).2, fresh⟩,
            steps middle last isOpen member depends fresh⟩
    exact stays.2

/-- Issuing a job leaves self-contained clusters self-contained: fewer jobs are open. -/
theorem selfContained_issue (bounded : work.Bounded) {cluster : ClusterId}
    (contained : progress.selfContained work cluster = true) (job : Nat)
    : (progress.issue work job).selfContained work cluster = true := by
  rw [selfContained_iff bounded] at contained ⊢
  intro one other isOpen member depends fresh
  refine contained one other ⟨isOpen.1, fun issued => ?_⟩ member depends fun issued => ?_
  · exact isOpen.2 (List.mem_append_left _ issued)
  · exact fresh (List.mem_append_left _ issued)

/-- The cluster of the job that has just been issued is the current one. -/
@[simp] theorem currentCluster?_issue (job : Nat)
    : (progress.issue work job).currentCluster? work = work.clusterOf job := by
  simp [currentCluster?, issue]

/-- Open jobs that wait only for one another are not stuck: the lowest of them is ready. -/
theorem Valid.exists_lowest_ready (valid : progress.Valid work) (bounded : work.Bounded)
    {rank : Nat → Nat} (lower : ∀ job other, work.DependsOn job other → rank other < rank job)
    (concerned : Nat → Prop)
    (closed
      : ∀ job other,
          progress.Open work job
          → concerned job
          → work.DependsOn job other
          → other ∉ progress.issued
          → concerned other)
    {start : Nat} (isOpen : progress.Open work start) (holds : concerned start)
    : ∃ job ∈ progress.ready,
        concerned job
        ∧ ∀ other, progress.Open work other → concerned other → rank job ≤ rank other := by
  obtain ⟨job, ⟨jobOpen, jobHolds⟩, least⟩ := (measure rank).wf.has_min
    {job | progress.Open work job ∧ concerned job} ⟨start, isOpen, holds⟩
  refine ⟨job, (valid.mem_ready_iff job).mpr ⟨jobOpen.1, jobOpen.2, ?_⟩, jobHolds, ?_⟩
  · intro other depends
    by_contra fresh
    have otherOpen : progress.Open work other := ⟨(bounded job other depends).2, fresh⟩
    exact least other ⟨otherOpen, closed job other jobOpen jobHolds depends fresh⟩
      (lower job other depends)
  · intro other otherOpen otherHolds
    exact Nat.le_of_not_lt (least other ⟨otherOpen, otherHolds⟩)

/-- A self-contained cluster with open jobs has a ready one. -/
theorem Valid.hasReady_of_selfContained (valid : progress.Valid work) (bounded : work.Bounded)
    {rank : Nat → Nat} (convex : work.ConvexRank rank) {cluster : ClusterId}
    (contained : progress.selfContained work cluster = true) {job : Nat}
    (isOpen : progress.Open work job) (member : work.clusterOf job = some cluster)
    : progress.hasReady work (some cluster) = true := by
  obtain ⟨lowest, ready, lowestMember, _⟩ := valid.exists_lowest_ready bounded convex.lower _
    ((selfContained_iff bounded).mp contained) isOpen member
  exact hasReady_iff.mpr ⟨lowest, ready, lowestMember⟩

/-- While jobs are open, one without a cluster is ready, or one whose cluster is self-contained.
The lowest open job is ready. Whatever a job of its cluster waits for ranks between the two, and
therefore belongs to the cluster.
-/
theorem Valid.exists_startable (valid : progress.Valid work) (bounded : work.Bounded)
    {rank : Nat → Nat} (convex : work.ConvexRank rank) {job : Nat}
    (isOpen : progress.Open work job)
    : progress.hasReady work none = true
      ∨ ∃ cluster,
          progress.hasReady work (some cluster) = true
          ∧ progress.selfContained work cluster = true := by
  obtain ⟨lowest, ready, _, least⟩ := valid.exists_lowest_ready bounded convex.lower
    (fun _ => True) (fun _ _ _ _ _ _ => trivial) isOpen trivial
  cases membership : work.clusterOf lowest with
  | none => exact Or.inl (hasReady_iff.mpr ⟨lowest, ready, membership⟩)
  | some cluster =>
      refine Or.inr ⟨cluster, hasReady_iff.mpr ⟨lowest, ready, membership⟩, ?_⟩
      rw [selfContained_iff bounded]
      intro one other oneOpen member depends fresh
      have lowestKnown := ((valid.mem_ready_iff lowest).mp ready).1
      have otherKnown := (bounded one other depends).2
      exact convex.between lowest other one cluster lowestKnown otherKnown oneOpen.1 membership
        member (least other ⟨otherKnown, fresh⟩ trivial) (convex.lower one other depends).le

-----------------------------------------------------------------------------------------
-- The greedy run keeps clusters together
-----------------------------------------------------------------------------------------

/-- A run is tidy if only the current cluster is begun and not finished, that cluster can run to
its end, and the issued jobs of every cluster stand next to one another.
-/
structure Tidy (work : Workload) (progress : Progress) : Prop where
  unfinished
    : ∀ cluster issued remaining,
        issued ∈ progress.issued
        → work.clusterOf issued = some cluster
        → progress.Open work remaining
        → work.clusterOf remaining = some cluster
        → progress.currentCluster? work = some cluster
          ∧ progress.selfContained work cluster = true
  blocks
    : ∀ cluster, OneBlock (fun job => work.clusterOf job = some cluster) progress.issued

theorem tidy_start (work : Workload) : (start work).Tidy work := by
  refine ⟨?_, fun _ => ⟨[], [], [], rfl, by simp, by simp⟩⟩
  intro cluster issued remaining member
  exact absurd member List.not_mem_nil

/-- A tidy run whose current cluster has nothing ready has finished all clusters it began. -/
theorem Tidy.not_paused (tidy : progress.Tidy work) (valid : progress.Valid work)
    (bounded : work.Bounded) {rank : Nat → Nat} (convex : work.ConvexRank rank)
    {cluster : ClusterId} {issued remaining : Nat} (member : issued ∈ progress.issued)
    (begun : work.clusterOf issued = some cluster) (isOpen : progress.Open work remaining)
    (waiting : work.clusterOf remaining = some cluster)
    : ¬ progress.Paused work := by
  intro paused
  obtain ⟨current, contained⟩ :=
    tidy.unfinished cluster issued remaining member begun isOpen waiting
  have ready := valid.hasReady_of_selfContained bounded convex contained isOpen waiting
  rw [paused cluster current] at ready
  cases ready

/-- The cluster of the next job can run to its end. If it was begun, tidiness says so; otherwise
some ready cluster can, and it would have been preferred.
-/
theorem Tidy.selfContained_next (tidy : progress.Tidy work) (valid : progress.Valid work)
    (bounded : work.Bounded) {rank : Nat → Nat} (convex : work.ConvexRank rank) {job : Nat}
    (next : progress.next? work = some job) {cluster : ClusterId}
    (member : work.clusterOf job = some cluster)
    : progress.selfContained work cluster = true := by
  obtain ⟨ready, chosen⟩ := next?_eq_some next
  obtain ⟨known, fresh, _⟩ := (valid.mem_ready_iff job).mp ready
  rw [member] at chosen
  cases chosen with
  | current last _ =>
      obtain ⟨latest, latestAt, latestMember⟩ := Option.bind_eq_some_iff.mp last
      have issued := List.mem_of_getLast? latestAt
      exact (tidy.unfinished cluster latest job issued latestMember ⟨known, fresh⟩ member).2
  | fresh _ clustered _ contained =>
      rcases contained with contained | missing
      · exact contained
      · rcases valid.exists_startable bounded convex ⟨known, fresh⟩ with
          unclustered | ⟨other, otherReady, otherContained⟩
        · rw [clustered] at unclustered
          cases unclustered
        · rw [missing other otherReady] at otherContained
          cases otherContained

/-- While a cluster is unfinished, the next job belongs to it. -/
theorem Tidy.next_continues (tidy : progress.Tidy work) (valid : progress.Valid work)
    (bounded : work.Bounded) {rank : Nat → Nat} (convex : work.ConvexRank rank) {job : Nat}
    (next : progress.next? work = some job) {cluster : ClusterId} {issued remaining : Nat}
    (earlier : issued ∈ progress.issued) (begun : work.clusterOf issued = some cluster)
    (isOpen : progress.Open work remaining) (waiting : work.clusterOf remaining = some cluster)
    : work.clusterOf job = some cluster := by
  obtain ⟨_, chosen⟩ := next?_eq_some next
  obtain ⟨current, _⟩ := tidy.unfinished cluster issued remaining earlier begun isOpen waiting
  have busy := tidy.not_paused valid bounded convex earlier begun isOpen waiting
  generalize work.clusterOf job = membership at chosen
  cases chosen with
  | current last _ => exact last.symm.trans current
  | unclustered paused _ => exact absurd paused busy
  | fresh paused _ _ _ => exact absurd paused busy

/-- Issuing the next job keeps a run tidy: a cluster that is begun can run to its end, and no other
one is begun before it is finished.
-/
theorem Tidy.issue (tidy : progress.Tidy work) (valid : progress.Valid work)
    (bounded : work.Bounded) {rank : Nat → Nat} (convex : work.ConvexRank rank) {job : Nat}
    (next : progress.next? work = some job)
    : (progress.issue work job).Tidy work := by
  obtain ⟨known, fresh, _⟩ := (valid.mem_ready_iff job).mp (next?_eq_some next).1
  refine ⟨?_, ?_⟩
  · intro cluster issued remaining issuedMember begun isOpen waiting
    have remainingOpen : progress.Open work remaining :=
      ⟨isOpen.1, fun earlier => isOpen.2 (List.mem_append_left _ earlier)⟩
    have member : work.clusterOf job = some cluster := by
      rcases List.mem_append.mp issuedMember with earlier | same
      · exact tidy.next_continues valid bounded convex next earlier begun remainingOpen waiting
      · exact List.mem_singleton.mp same ▸ begun
    rw [currentCluster?_issue]
    exact ⟨member,
      selfContained_issue bounded (tidy.selfContained_next valid bounded convex next member) job⟩
  · intro cluster
    have block := tidy.blocks cluster
    by_cases member : work.clusterOf job = some cluster
    · by_cases begun : ∃ issued ∈ progress.issued, work.clusterOf issued = some cluster
      · obtain ⟨issued, earlier, issuedMember⟩ := begun
        obtain ⟨current, _⟩ :=
          tidy.unfinished cluster issued job earlier issuedMember ⟨known, fresh⟩ member
        obtain ⟨latest, latestAt, latestMember⟩ := Option.bind_eq_some_iff.mp current
        exact block.append_next latestAt latestMember member
      · have absent : ∀ issued ∈ progress.issued, work.clusterOf issued ≠ some cluster :=
          fun issued earlier held => begun ⟨issued, earlier, held⟩
        exact OneBlock.append_first absent member
    · exact block.append_other member

end Progress

/-- If jobs can be ranked convexly, the order keeps the jobs of every cluster together. -/
theorem Workload.ConvexRank.order_oneBlock {work : Workload} {rank : Nat → Nat}
    (convex : work.ConvexRank rank) (bounded : work.Bounded) (cluster : ClusterId)
    : OneBlock (fun job => work.clusterOf job = some cluster) work.order := by
  have finished := Progress.drain_induction
    (fun progress job (held : progress.Valid work ∧ progress.Tidy work) next =>
      ⟨held.1.issue (Progress.next?_eq_some next).1, held.2.issue held.1 bounded convex next⟩)
    work.size ⟨Progress.valid_start work, Progress.tidy_start work⟩
  exact finished.2.blocks cluster

-----------------------------------------------------------------------------------------
-- Breaks in a schedule
-----------------------------------------------------------------------------------------

namespace ScheduleReport

/-- Counts the groups that carry a cluster seen before, where the group just before them carries
another cluster or none.
-/
def resumed (seen : List ClusterId) (previous : Option ClusterId) : List Group → Nat
  | [] => 0
  | group :: rest =>
      (group.cluster.any fun cluster => seen.contains cluster && previous != some cluster).toNat
        + resumed (group.cluster.toList ++ seen) group.cluster rest

/-- The last positions of the clusters stand for what the groups before a position carry: a cluster
has one if it has been seen, and it is the position just before if the previous group carries it.
-/
structure Tracks (lastSeen : List (ClusterId × Nat)) (position : Nat) (seen : List ClusterId)
    (previous : Option ClusterId) : Prop where
  seen_iff : ∀ cluster, cluster ∈ seen ↔ ∃ last, lastSeen.lookup cluster = some last
  earlier : ∀ cluster last, lastSeen.lookup cluster = some last → last < position
  latest
    : ∀ cluster last,
        lastSeen.lookup cluster = some last → (last + 1 = position ↔ previous = some cluster)

namespace Tracks

variable {lastSeen : List (ClusterId × Nat)} {position : Nat} {seen : List ClusterId}
  {previous : Option ClusterId}

/-- A cluster is resumed if it has been seen and the previous group does not carry it. -/
theorem resumes_eq (tracks : Tracks lastSeen position seen previous) (cluster : ClusterId)
    : resumes lastSeen position cluster = (seen.contains cluster && previous != some cluster) := by
  have listed := tracks.seen_iff cluster
  unfold resumes
  cases found : lastSeen.lookup cluster with
  | none => simp_all
  | some last =>
      have member := List.contains_iff_mem.mpr (listed.mpr ⟨last, found⟩)
      rw [member, Bool.true_and, Bool.eq_iff_iff, bne_iff_ne, bne_iff_ne]
      exact not_congr (tracks.latest cluster last found)

/-- After a group without a cluster, no cluster was last seen just before. -/
theorem step_none (tracks : Tracks lastSeen position seen previous)
    : Tracks lastSeen (position + 1) seen none := by
  refine ⟨tracks.seen_iff, ?_, ?_⟩
  · intro cluster last found
    exact Nat.lt_succ_of_lt (tracks.earlier cluster last found)
  · intro cluster last found
    have earlier := tracks.earlier cluster last found
    simpa using earlier.ne

/-- After a group of a cluster, that cluster was last seen just before and no other one. -/
theorem step_some (tracks : Tracks lastSeen position seen previous) (cluster : ClusterId)
    : Tracks ((cluster, position) :: lastSeen) (position + 1) (cluster :: seen)
        (some cluster) := by
  have found (other : ClusterId)
      : ((cluster, position) :: lastSeen).lookup other
        = if other = cluster then some position else lastSeen.lookup other := by
    rw [List.lookup_cons]
    by_cases same : other = cluster
    · simp [same]
    · rw [beq_eq_false_iff_ne.mpr same, if_neg same]
  refine ⟨?_, ?_, ?_⟩
  · intro other
    rw [List.mem_cons, found, tracks.seen_iff]
    by_cases same : other = cluster <;> simp [same]
  · intro other last
    rw [found]
    split
    · intro same
      cases same
      exact Nat.lt_succ_self position
    · intro earlier
      exact Nat.lt_succ_of_lt (tracks.earlier other last earlier)
  · intro other last
    rw [found]
    split
    · rename_i same
      intro here
      cases here
      simp [same]
    · rename_i different
      intro earlier
      have before := tracks.earlier other last earlier
      simpa [before.ne] using Ne.symm different

/-- Going by the last positions counts what going by the previous group counts, by induction on the
groups.
-/
theorem breaks_eq (tracks : Tracks lastSeen position seen previous) (groups : List Group)
    : breaks lastSeen position groups = resumed seen previous groups := by
  induction groups generalizing lastSeen position seen previous with
  | nil => rfl
  | cons group rest ih =>
      unfold breaks resumed
      cases membership : group.cluster with
      | none => simpa using ih tracks.step_none
      | some cluster => simp [tracks.resumes_eq, ih (tracks.step_some cluster)]

end Tracks

theorem contiguityBreaks_analyze (groups : List Group)
    : (analyze groups).contiguityBreaks = resumed [] none groups :=
  Tracks.breaks_eq ⟨by simp, by simp, by simp⟩ groups

/-- Groups of one cluster with another group in between. -/
def Interrupted (groups : List Group) (cluster : ClusterId) : Prop :=
  ∃ first middle last,
    [first, middle, last].Sublist groups
    ∧ first.cluster = some cluster
    ∧ middle.cluster ≠ some cluster
    ∧ last.cluster = some cluster

/-- No break is counted when no cluster is interrupted, clusters seen before do not come again, and
the previous cluster comes again only at once. By induction on the groups: each group hands these
three facts on to the groups after it.
-/
theorem resumed_eq_zero {seen : List ClusterId} {previous : Option ClusterId}
    {groups : List Group} (together : ∀ cluster, ¬ Interrupted groups cluster)
    (gone
      : ∀ cluster ∈ seen,
          previous ≠ some cluster → ∀ group ∈ groups, group.cluster ≠ some cluster)
    (going
      : ∀ cluster,
          previous = some cluster
          → ∀ first last,
              [first, last].Sublist groups
              → last.cluster = some cluster
              → first.cluster = some cluster)
    : resumed seen previous groups = 0 := by
  induction groups generalizing seen previous with
  | nil => rfl
  | cons group rest ih =>
      have later : ∀ cluster, ¬ Interrupted rest cluster := by
        rintro cluster ⟨first, middle, last, within, facts⟩
        exact together cluster ⟨first, middle, last, within.cons group, facts⟩
      -- A seen cluster that this group does not continue is over.
      have finished {cluster : ClusterId} (member : cluster ∈ seen)
          (different : group.cluster ≠ some cluster)
          : ∀ other ∈ rest, other.cluster ≠ some cluster := by
        intro other otherMember same
        by_cases current : previous = some cluster
        · have within : [group, other].Sublist (group :: rest) :=
            (List.singleton_sublist.mpr otherMember).cons_cons group
          exact different (going cluster current group other within same)
        · exact gone cluster member current other (List.mem_cons_of_mem _ otherMember) same
      unfold resumed
      have unbroken
          : (group.cluster.any fun cluster =>
              seen.contains cluster && previous != some cluster) = false := by
        rw [Option.any_eq_false]
        intro cluster membership
        rw [Bool.and_eq_false_iff, ← Bool.not_eq_true, List.contains_iff_mem, bne_eq_false_iff_eq,
          or_iff_not_imp_left, not_not]
        intro member
        by_contra different
        exact gone cluster member different group List.mem_cons_self membership
      rw [unbroken, Bool.toNat_false, Nat.zero_add]
      refine ih later ?_ ?_
      · intro cluster member different
        rcases List.mem_append.mp member with same | earlier
        · exact absurd (Option.mem_toList.mp same) different
        · exact finished earlier different
      · intro cluster same first last within lastMember
        by_contra different
        exact together cluster
          ⟨group, first, last, within.cons_cons group, same, different, lastMember⟩

end ScheduleReport

/-- If the order keeps the jobs of a cluster together, the groups do not interrupt it: groups are
pieces of the order, and the jobs of a piece share their membership.
-/
theorem Workload.not_interrupted {work : Workload} {cluster : ClusterId}
    (block : OneBlock (fun job => work.clusterOf job = some cluster) work.order)
    : ¬ ScheduleReport.Interrupted work.groups cluster := by
  rintro ⟨first, middle, last, within, firstMember, middleOther, lastMember⟩
  obtain ⟨pieces, piecesWithin, same⟩ := List.sublist_map_iff.mp within
  obtain ⟨firstJobs, middleJobs, lastJobs, rfl⟩ : ∃ one two three, pieces = [one, two, three] := by
    match pieces, same with
    | [one, two, three], _ => exact ⟨one, two, three, rfl⟩
  simp only [List.map_cons, List.map_nil, List.cons.injEq, and_true] at same
  obtain ⟨rfl, rfl, rfl⟩ := same
  -- One job of each group shows the membership of the group.
  have representative (jobs : List Nat) (member : jobs ∈ [firstJobs, middleJobs, lastJobs])
      : ∃ job ∈ jobs, work.clusterOf job = (work.toGroup jobs).cluster := by
    have listed := piecesWithin.mem member
    obtain ⟨job, inside⟩ := List.exists_mem_of_ne_nil _ (jobGroups_ne_nil listed)
    exact ⟨job, inside, (jobGroups_uniform listed inside).symm⟩
  obtain ⟨one, oneMember, oneCluster⟩ := representative firstJobs (by simp)
  obtain ⟨two, twoMember, twoCluster⟩ := representative middleJobs (by simp)
  obtain ⟨three, threeMember, threeCluster⟩ := representative lastJobs (by simp)
  have ordered : [one, two, three].Sublist work.order := by
    rw [← jobGroups_flatten]
    refine List.Sublist.trans ?_ piecesWithin.flatten
    simpa using (List.singleton_sublist.mpr oneMember).append
      ((List.singleton_sublist.mpr twoMember).append (List.singleton_sublist.mpr threeMember))
  exact middleOther
    (twoCluster.symm.trans
      (block.between ordered (oneCluster.trans firstMember) (threeCluster.trans lastMember)))

-----------------------------------------------------------------------------------------
-- Contiguous schedules
-----------------------------------------------------------------------------------------

namespace Graph

/-- An order of the chosen states, each listed once, in which a state comes after every chosen
state that it needs and the members of every cluster stand next to one another.
-/
structure ContiguousOrder (graph : Graph) (chosen order : List StateId) : Prop where
  once : order.Nodup
  exactly : ∀ state, state ∈ order ↔ state ∈ chosen
  respects
    : ∀ state ∈ chosen,
        ∀ other ∈ chosen,
          graph.Needs state other → order.idxOf other < order.idxOf state
  blocks : ∀ cluster, OneBlock (fun state => graph.stateCluster? state = some cluster) order

/-- A contiguous order leaves no room for a cycle through a chosen state: the state would come
after itself.
-/
theorem ContiguousOrder.acyclic {graph : Graph} {chosen order : List StateId}
    (contiguous : graph.ContiguousOrder chosen order)
    : ∀ node, graph.Holds chosen node → ¬ graph.Path node node := by
  rintro node ⟨state, member, entry, entryAt, rfl⟩ cycle
  have itself : graph.Needs state state := ⟨entry, entry, entryAt, entryAt, cycle⟩
  exact Nat.lt_irrefl _ (contiguous.respects state member state member itself)

/-- A contiguous order of states ranks the jobs that hold them: each by its first state. -/
theorem ContiguousOrder.convexRank {graph : Graph} {chosen order : List StateId}
    {work : Workload} (contiguous : graph.ContiguousOrder chosen order)
    (represents : work.Represents graph chosen)
    : ∃ rank, work.ConvexRank rank := by
  have listed (job : Nat) (known : job < work.size) : ∃ state, state ∈ work.statesOf job := by
    have member : work.jobs[job] ∈ work.jobs := List.getElem_mem known
    obtain ⟨state, inside⟩ := List.exists_mem_of_ne_nil _ (represents.inhabited _ member)
    exact ⟨state, Workload.mem_statesOf_iff.mpr ⟨_, List.getElem?_eq_getElem known, inside⟩⟩
  -- Any state may stand for its job, since the states of a job share their node and cluster.
  have inhabited : Nonempty StateId := ⟨⟨0⟩⟩
  choose! state holds using listed
  have chosenState {job : Nat} (known : job < work.size) : state job ∈ chosen :=
    (represents.mem_iff (state job)).mpr ⟨job, holds job known⟩
  refine ⟨fun job => order.idxOf (state job), ?_, ?_⟩
  · intro job other depends
    obtain ⟨known, otherKnown⟩ := represents.bounded job other depends
    have needs := (represents.leads_iff_needs (holds job known) (holds other otherKnown)).mp
      (.single depends)
    exact contiguous.respects _ (chosenState known) _ (chosenState otherKnown) needs
  · intro first middle last cluster firstKnown middleKnown lastKnown firstMember lastMember lower
      upper
    rw [← represents.stateCluster (holds first firstKnown)] at firstMember
    rw [← represents.stateCluster (holds last lastKnown)] at lastMember
    rw [← represents.stateCluster (holds middle middleKnown)]
    exact (contiguous.blocks cluster).between_idxOf
      ((contiguous.exactly _).mpr (chosenState middleKnown)) firstMember
      ((contiguous.exactly _).mpr (chosenState lastKnown)) lastMember lower upper

/-- If the chosen states have a contiguous order at all, they are scheduled, and the schedule is
contiguous: it lists them all, each after what it needs, the members of every cluster stand next to
one another, and no break is counted.
-/
theorem schedule_contiguous {graph : Graph} (constructed : graph.Constructed)
    {chosen order : List StateId} (known : ∀ state ∈ chosen, state ∈ graph.states)
    (contiguous : graph.ContiguousOrder chosen order)
    : ∃ groups,
        graph.schedule chosen = .ok groups
        ∧ graph.SoundSchedule chosen groups
        ∧ (∀ cluster,
            OneBlock (fun state => graph.stateCluster? state = some cluster)
              (groups.flatMap Group.states))
        ∧ (ScheduleReport.analyze groups).contiguityBreaks = 0 := by
  obtain ⟨work, made⟩ := Workload.exists_ofStates known
  have represents := Workload.represents_ofStates constructed.edgesInside made
  have done : work.left = [] := represents.left_eq_nil_iff.mpr contiguous.acyclic
  obtain ⟨rank, convex⟩ := contiguous.convexRank represents
  have blocks := convex.order_oneBlock represents.bounded
  refine ⟨work.groups, ?_, soundSchedule_groups represents done, ?_, ?_⟩
  · exact scheduleBy_of_done _ made done
  · intro cluster
    rw [work.groups_flatMap_states]
    refine (blocks cluster).flatMap fun job _ state listed => ?_
    rw [represents.stateCluster listed]
  · have together (cluster : ClusterId) := Workload.not_interrupted (blocks cluster)
    rw [ScheduleReport.contiguityBreaks_analyze]
    refine ScheduleReport.resumed_eq_zero together ?_ ?_
    · intro cluster member
      exact absurd member List.not_mem_nil
    · intro cluster impossible
      cases impossible

/-- The second pair first and then the first pair is a contiguous order of the pairs. -/
theorem pairsGraph_contiguousOrder
    : pairsGraph.ContiguousOrder (firstPair ++ secondPair) (secondPair ++ firstPair) := by
  have first : ∀ state ∈ firstPair, pairsGraph.stateCluster? state = some (.ofIndex 0) := by
    decide +kernel
  have second : ∀ state ∈ secondPair, pairsGraph.stateCluster? state = some (.ofIndex 1) := by
    decide +kernel
  have found
      : ∀ state ∈ firstPair ++ secondPair,
          ∀ other ∈ firstPair ++ secondPair,
            (∃ entry ∈ pairsGraph.entry? state,
              ∃ otherEntry ∈ pairsGraph.entry? other,
                otherEntry.node ∈ pairsGraph.search entry.node)
            → (secondPair ++ firstPair).idxOf other < (secondPair ++ firstPair).idxOf state := by
    decide +kernel
  refine ⟨by decide, fun state => List.perm_append_comm.mem_iff, ?_, ?_⟩
  · rintro state member other otherMember ⟨entry, otherEntry, entryAt, otherAt, path⟩
    have reached := (mem_search_iff pairsGraph_constructed.edgesInside).mpr path
    exact found state member other otherMember ⟨entry, entryAt, otherEntry, otherAt, reached⟩
  · intro cluster
    by_cases isFirst : cluster = .ofIndex 0
    · subst isFirst
      refine ⟨secondPair, firstPair, [], rfl, first, ?_⟩
      intro state member held
      rw [List.append_nil] at member
      exact absurd (held.symm.trans (second state member)) (by decide)
    · by_cases isSecond : cluster = .ofIndex 1
      · subst isSecond
        refine ⟨[], secondPair, firstPair, rfl, second, ?_⟩
        intro state member held
        exact absurd (held.symm.trans (first state member)) (by decide)
      · refine ⟨secondPair ++ firstPair, [], [], rfl, by simp, ?_⟩
        intro state member held
        rw [List.append_nil] at member
        rcases List.mem_append.mp member with inSecond | inFirst
        · exact isSecond (Option.some.inj (held.symm.trans (second state inSecond)))
        · exact isFirst (Option.some.inj (held.symm.trans (first state inFirst)))

/-- The pairs are scheduled without a break although the first pair is listed first: the second pair
comes before it, in two groups.
-/
theorem schedule_contiguous_pairs
    : pairsGraph.schedule (firstPair ++ secondPair)
        = .ok
            [⟨some (.ofIndex 1), [.ofIndex 2]⟩, ⟨some (.ofIndex 1), [.ofIndex 3]⟩,
              ⟨some (.ofIndex 0), firstPair⟩]
      ∧ pairsGraph.SoundSchedule (firstPair ++ secondPair)
          [⟨some (.ofIndex 1), [.ofIndex 2]⟩, ⟨some (.ofIndex 1), [.ofIndex 3]⟩,
            ⟨some (.ofIndex 0), firstPair⟩]
      ∧ (∀ cluster,
          OneBlock (fun state => pairsGraph.stateCluster? state = some cluster)
            [.ofIndex 2, .ofIndex 3, .ofIndex 0, .ofIndex 1])
      ∧ (ScheduleReport.analyze
            [⟨some (.ofIndex 1), [.ofIndex 2]⟩, ⟨some (.ofIndex 1), [.ofIndex 3]⟩,
              ⟨some (.ofIndex 0), firstPair⟩]).contiguityBreaks
          = 0 := by
  have known : ∀ state ∈ firstPair ++ secondPair, state ∈ pairsGraph.states := by
    decide +kernel
  have scheduled
      : pairsGraph.schedule (firstPair ++ secondPair)
        = .ok
            [⟨some (.ofIndex 1), [.ofIndex 2]⟩, ⟨some (.ofIndex 1), [.ofIndex 3]⟩,
              ⟨some (.ofIndex 0), firstPair⟩] := by
    cbv
  obtain ⟨groups, same, sound, blocks, unbroken⟩ :=
    schedule_contiguous pairsGraph_constructed known pairsGraph_contiguousOrder
  cases scheduled.symm.trans same
  exact ⟨scheduled, sound, blocks, unbroken⟩

end Graph

end StepPlan
