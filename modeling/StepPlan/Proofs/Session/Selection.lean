import StepPlan.Proofs.Cluster.Cheapest
import StepPlan.Proofs.Cluster.Determinism
import StepPlan.Proofs.Session.Mining

/-! The clusters that a search selects. Among the classes of candidates that are large enough, in
order of preference, the survivors leave out only what conflicts with them. Their cost is what is
reported, and taking any other class first and then the rest in order costs at least as much.
-/

namespace StepPlan

-----------------------------------------------------------------------------------------
-- The order of preference
-----------------------------------------------------------------------------------------

/-- Larger clusters come first, then cheaper ones, then by the shape of the routine and by states.
-/
def Cluster.Preferred (first second : Cluster) : Prop :=
  second.size < first.size
  ∨ second.size = first.size
    ∧ (first.cost < second.cost
      ∨ first.cost = second.cost
        ∧ (first.prototype.shape < second.prototype.shape
          ∨ first.prototype.shape = second.prototype.shape
            ∧ first.states.map Ident.index < second.states.map Ident.index))

theorem compareNumbers_eq_lt_iff {first second : List Nat}
    : compareNumbers first second = .lt ↔ first < second := by
  induction first generalizing second with
  | nil => cases second <;> simp [compareNumbers]
  | cons number rest ih =>
      cases second with
      | nil => simp [compareNumbers]
      | cons other others =>
          rw [compareNumbers, Ordering.then_eq_lt, ih, List.cons_lt_cons_iff, Nat.compare_eq_lt,
            Nat.compare_eq_eq]

theorem Mining.compareClusters_eq_lt_iff {first second : Cluster}
    : compareClusters first second = .lt ↔ first.Preferred second := by
  simp only [compareClusters, Cluster.Preferred, Ordering.then_eq_lt, compareNumbers_eq_lt_iff,
    compare_lt_iff_lt, Std.compare_eq_iff_eq]

-----------------------------------------------------------------------------------------
-- Classes
-----------------------------------------------------------------------------------------

namespace Program

/-- (program.Candidate states member) means that the member is a form, not an empty one, of one of
the states.
-/
def Candidate (program : Program) (states : List StateId) (member : Member) : Prop :=
  member.state ∈ states
  ∧ program.HasForm member.state member.formula
  ∧ member.formula ≠ []

/-- The length of the expanded formula of a state, and zero if there is none. -/
def expandedLength (program : Program) (state : StateId) : Nat :=
  (program.prepare state).toOption.elim 0 fun prepared => prepared.expanded.length

/-- (program.Classes codes states minimum classes) means that the clusters close the classes of
candidates with the same signature, those that have enough members, in order of preference.
-/
structure Classes (program : Program) (codes : CodeTable) (states : List StateId) (minimum : Nat)
    (classes : List Cluster)
    : Prop where
  closed
    : ∀ cluster ∈ classes,
        ∃ id collected, cluster = .close id cluster.signature collected
  mem_iff
    : ∀ cluster ∈ classes,
        ∀ member,
          member ∈ cluster.members
          ↔ program.Candidate states member
            ∧ codes.sign member.formula = (.ok cluster.signature, codes)
  ascending : ∀ cluster ∈ classes, cluster.states.Pairwise (· < ·)
  large : ∀ cluster ∈ classes, cluster.members ≠ [] ∧ minimum ≤ cluster.size
  complete
    : ∀ signature members,
        members ≠ []
        → members.Nodup
        → minimum ≤ members.length
        → (∀ member ∈ members,
            program.Candidate states member
            ∧ codes.sign member.formula = (.ok signature, codes))
        → ∃ cluster ∈ classes, cluster.signature = signature
  distinct : (classes.map Cluster.signature).Nodup
  sorted : classes.Pairwise Cluster.Preferred

end Program

namespace Mining

variable {program : Program} {states : List StateId} {entries : List (StateId × Prepared)}
  {table codes : CodeTable} {signed : List (Signature × Member)} {cluster : Cluster}

theorem Closes.mem_iff_candidate (closes : Closes codes (candidates entries) cluster)
    (prepared : program.prepareAll states.eraseDups = .ok entries) (member : Member)
    : member ∈ cluster.members
      ↔ program.Candidate states member
        ∧ codes.sign member.formula = (.ok cluster.signature, codes) := by
  rw [closes.mem_iff, mem_candidates_iff_hasForm prepared, List.mem_eraseDups]
  refine and_congr_right fun _ => ⟨CodeTable.Signs.sign_eq, fun signed => ?_⟩
  exact (CodeTable.sign_eq_ok signed).2

/-- Candidates with one signature all belong to the class of that signature. -/
theorem exists_class (prepared : program.prepareAll states.eraseDups = .ok entries)
    (done : signAll table (candidates entries) = (.ok signed, codes)) {signature : Signature}
    {members : List Member} (nonempty : members ≠ [])
    (candidate : ∀ member ∈ members,
      program.Candidate states member
      ∧ codes.sign member.formula = (.ok signature, codes))
    : ∃ cluster ∈ closeAll signed, cluster.signature = signature ∧ members ⊆ cluster.members := by
  obtain ⟨first, inside⟩ := List.exists_mem_of_ne_nil members nonempty
  obtain ⟨⟨listed, form, filled⟩, firstSigned⟩ := candidate first inside
  obtain ⟨cluster, member, belongs⟩ := exists_mem_closeAll done
    ((mem_candidates_iff_hasForm prepared).mpr ⟨List.mem_eraseDups.mpr listed, form, filled⟩)
  have closes := closes_of_mem_closeAll prepared (nodup_eraseDups _) done member
  have mem_iff := closes.mem_iff_candidate prepared
  have same : cluster.signature = signature := by
    have equal := ((mem_iff first).mp belongs).2.symm.trans firstSigned
    simpa using equal
  refine ⟨cluster, member, same, ?_⟩
  intro other otherInside
  rw [mem_iff, same]
  exact candidate other otherInside

/-- Classes come in order of preference once they are sorted, because no two of them compare equal.
-/
theorem preferred_sortClusters (prepared : program.prepareAll states.eraseDups = .ok entries)
    (done : signAll table (candidates entries) = (.ok signed, codes)) {viable : List Cluster}
    (part : viable.Sublist (closeAll signed))
    : (sortClusters viable).Pairwise Cluster.Preferred := by
  have closes : ∀ cluster ∈ viable, Closes codes (candidates entries) cluster :=
    fun cluster member =>
      closes_of_mem_closeAll prepared (nodup_eraseDups _) done (part.subset member)
  have kept := List.mergeSort_perm viable fun first second => (compareClusters first second).isLE
  have different : (sortClusters viable).Pairwise fun first second => first.bare ≠ second.bare := by
    have all := nodup_bare_closeAll prepared (nodup_eraseDups _) done
    exact List.pairwise_map.mp ((kept.map Cluster.bare).nodup_iff.mpr (all.sublist (part.map _)))
  refine ((pairwise_mergeSort_isLE compareClusters viable).and different).imp_of_mem ?_
  intro first second member otherMember ordered
  apply compareClusters_eq_lt_iff.mp
  apply (Ordering.isLE_iff_eq_lt_or_eq_eq.mp ordered.1).resolve_right
  exact mt (bare_eq_of_compareClusters prepared (closes first (kept.mem_iff.mp member))
    (closes second (kept.mem_iff.mp otherMember))) ordered.2

/-- The classes that a search closes, in the order in which they are tried. -/
theorem classes_viableOf (prepared : program.prepareAll states.eraseDups = .ok entries)
    (done : signAll table (candidates entries) = (.ok signed, codes)) (minimum : Nat)
    : program.Classes codes states minimum (viableOf minimum (closeAll signed)) := by
  have part : ((closeAll signed).filter fun cluster => decide (minimum ≤ cluster.size)).Sublist
      (closeAll signed) :=
    List.filter_sublist
  have closes : ∀ cluster ∈ viableOf minimum (closeAll signed),
      Closes codes (candidates entries) cluster := by
    intro cluster member
    exact closes_of_mem_closeAll prepared (nodup_eraseDups _) done (mem_viableOf.mp member).1
  refine {
    closed := ?_
    mem_iff := fun cluster member => (closes cluster member).mem_iff_candidate prepared
    ascending := fun cluster member => (closes cluster member).ascending
    large := ?_
    complete := ?_
    distinct := ?_
    sorted := preferred_sortClusters prepared done part
  }
  · intro cluster member
    obtain ⟨id, signature, collected, rfl⟩ := (closes cluster member).closed
    exact ⟨id, collected, rfl⟩
  · intro cluster member
    refine ⟨?_, (mem_viableOf.mp member).2⟩
    exact mt (congrArg (List.map Member.state)) (closes cluster member).inhabited
  · intro signature members nonempty distinct enough candidate
    obtain ⟨cluster, member, same, inside⟩ := exists_class prepared done nonempty candidate
    refine ⟨cluster, mem_viableOf.mpr ⟨member, Nat.le_trans enough ?_⟩, same⟩
    exact (List.subperm_of_subset distinct inside).length_le
  · have all : ((closeAll signed).map Cluster.signature).Nodup := by
      rw [map_signature_closeAll]
      exact nodup_eraseDups _
    have kept := (viableOf_perm minimum (closeAll signed)).map Cluster.signature
    exact kept.nodup_iff.mpr (all.sublist (part.map _))

theorem inlineLength_eq (prepared : program.prepareAll states = .ok entries) {state : StateId}
    (listed : state ∈ states)
    : inlineLength entries state = program.expandedLength state := by
  rw [← Program.map_fst_prepareAll prepared] at listed
  obtain ⟨entry, member, rfl⟩ := List.mem_map.mp listed
  rw [inlineLength_of_mem prepared member, Program.expandedLength,
    Program.prepare_of_prepareAll prepared entry member]
  rfl

end Mining

-----------------------------------------------------------------------------------------
-- Searches
-----------------------------------------------------------------------------------------

namespace Session

variable {session later : Session} {states : List StateId} {set : ClusterSet}

/-- A search selects the cheapest pass over the classes that are large enough, and it accounts for
every class.
-/
theorem mineFor_selects (enabled : session.options.disableClustering = false)
    (mined : session.mineFor states = (.ok set, later))
    : ∃ classes viable,
        session.program.Classes later.codes states 0 classes
        ∧ session.program.Classes later.codes states session.options.minClusterSize viable
        ∧ set.Selects session.program.expandedLength viable
        ∧ set.report.candidates = classes.length
        ∧ set.report.candidates
          = set.report.discardedSmall + set.report.droppedConflicts + set.report.selected := by
  rcases mineFor_cases mined with ⟨disabled, _⟩ | ⟨_, entries, signed, prepared, done, rfl⟩
  · exact absurd (disabled.symm.trans enabled) Bool.noConfusion
  · have classes := Mining.classes_viableOf prepared done 0
    have viable := Mining.classes_viableOf prepared done session.options.minClusterSize
    have selects := Mining.selects_survey session.options entries (Mining.closeAll signed)
    refine ⟨_, _, classes, viable, selects.congr ?_, ?_, ?_⟩
    · intro cluster member state belongs
      obtain ⟨found, inside, rfl⟩ := List.mem_map.mp belongs
      have listed := ((viable.mem_iff cluster member found).mp inside).1.1
      exact Mining.inlineLength_eq prepared (List.mem_eraseDups.mpr listed)
    · rw [(Mining.viableOf_perm 0 _).length_eq, List.filter_eq_self.mpr (by simp)]
      rfl
    · rw [Nat.add_assoc, selects.dropped]
      exact Mining.countSmall_add_length _ _

/-- A state that adds something to an input. -/
def rivalState (name : String) (target read : Nat) (added : Formula) : State where
  target := .var (.ofIndex target)
  role := .direct
  formula := .var (.ofIndex read) :: added ++ [.operator .add]
  name := name

/-- Two states that add what folds to a three, and one that adds a five. -/
def rivals : Session where
  program := {
    model := ⟨["x", "y", "z", "a", "b", "c"].map fun name =>
      ⟨name, ⟨true, false, false, false⟩, none⟩⟩
    registry :=
      [rivalState "a" 3 0 [three, .number .nan, .elementary .max],
        rivalState "b" 4 1 [three, .number .nan, .elementary .max],
        rivalState "c" 5 2 [five]].foldl
          (fun registry state => (registry.add state).2) .empty
  }
  options := ⟨2, false⟩
  codes := ⟨[]⟩
  memo := .empty

/-- The two states that have not been folded, with the shared literals in the routine. -/
def rivalsCluster : Cluster where
  id := .ofIndex 0
  signature := [0, 0, 0, 36, 1]
  prototype := [.argument 0, three, .number .nan, .elementary .max, .operator .add]
  parameters := [0]
  arguments := [[0]]
  members :=
    [⟨.ofIndex 0, [.var (.ofIndex 0), three, .number .nan, .elementary .max, .operator .add]⟩,
      ⟨.ofIndex 1, [.var (.ofIndex 1), three, .number .nan, .elementary .max, .operator .add]⟩]

/-- All three states share a class once they are folded, but the smaller class is cheaper. -/
theorem mineFor_selects_rivals
    : ∃ later viable,
        rivals.mineFor [.ofIndex 2, .ofIndex 0, .ofIndex 1]
          = (.ok ⟨[rivalsCluster], ⟨2, 0, 1, 1, 14⟩⟩, later)
        ∧ rivals.program.Classes later.codes [.ofIndex 2, .ofIndex 0, .ofIndex 1] 2 viable
        ∧ ClusterSet.Selects ⟨[rivalsCluster], ⟨2, 0, 1, 1, 14⟩⟩ rivals.program.expandedLength
            viable := by
  have mined : rivals.mineFor [.ofIndex 2, .ofIndex 0, .ofIndex 1]
      = (.ok ⟨[rivalsCluster], ⟨2, 0, 1, 1, 14⟩⟩,
          (rivals.mineFor [.ofIndex 2, .ofIndex 0, .ofIndex 1]).2) := by
    cbv
  obtain ⟨_, viable, _, classes, selects, _⟩ := mineFor_selects rfl mined
  exact ⟨_, viable, mined, classes, selects⟩

end Session

end StepPlan
