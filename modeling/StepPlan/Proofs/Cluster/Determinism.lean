import Mathlib.Data.List.Nodup
import StepPlan.Proofs.Cluster.Classes
import StepPlan.Proofs.Cluster.Survey

/-! Classes do not depend on the order of states or on the codes that a table has handed out. A
class holds the candidates with the heads of any of its members, so runs over the same states close
the same classes, up to names and codes. Clusters of one run that compare equal share their first
member, so they are one.
-/

namespace StepPlan

-----------------------------------------------------------------------------------------
-- Runs over the same states
-----------------------------------------------------------------------------------------

/-- Preparation succeeds when every single state can be prepared, by induction on the states. -/
theorem Program.exists_prepareAll_iff {program : Program} {states : List StateId}
    : (∃ entries, program.prepareAll states = .ok entries)
      ↔ ∀ id ∈ states, ∃ prepared, program.prepare id = .ok prepared := by
  constructor
  · intro ⟨entries, done⟩ id member
    rw [← map_fst_prepareAll done] at member
    obtain ⟨entry, listed, rfl⟩ := List.mem_map.mp member
    exact ⟨entry.2, prepare_of_prepareAll done entry listed⟩
  · intro all
    induction states with
    | nil => exact ⟨[], rfl⟩
    | cons id rest ih =>
        obtain ⟨first, others⟩ := List.forall_mem_cons.mp all
        obtain ⟨prepared, done⟩ := first
        obtain ⟨entries, restDone⟩ := ih others
        exact ⟨(id, prepared) :: entries, by simp only [prepareAll, done, restDone]⟩

namespace Mining

variable {program : Program} {states others : List StateId}
  {entries otherEntries : List (StateId × Prepared)}

/-- Signing succeeds when every single candidate can be signed, by induction on the candidates. -/
theorem exists_signAll_iff (table : CodeTable) {members : List Member}
    : (∃ signed later, signAll table members = (.ok signed, later))
      ↔ ∀ member ∈ members, ∀ instruction ∈ member.formula, instruction.head? ≠ none := by
  constructor
  · intro ⟨signed, later, done⟩ member inside instruction used missing
    obtain ⟨_, all, signs⟩ := signAll_eq_ok done
    rw [← all] at inside
    obtain ⟨entry, listed, rfl⟩ := List.mem_map.mp inside
    obtain ⟨head, found⟩ := (signs entry listed).exists_head used
    cases missing.symm.trans found
  · intro headed
    induction members generalizing table with
    | nil => exact ⟨[], table, rfl⟩
    | cons member rest ih =>
        obtain ⟨first, later⟩ := List.forall_mem_cons.mp headed
        obtain ⟨signature, next, signed⟩ := (CodeTable.exists_sign_iff table).mpr first
        obtain ⟨signedRest, last, done⟩ := ih next later
        exact ⟨(signature, member) :: signedRest, last, by simp only [signAll, signed, done]⟩

/-- The same states have the same candidates, in whatever order they were prepared. -/
theorem mem_candidates_congr (prepared : program.prepareAll states = .ok entries)
    (otherPrepared : program.prepareAll others = .ok otherEntries)
    (same : ∀ id, id ∈ states ↔ id ∈ others) (member : Member)
    : member ∈ candidates entries ↔ member ∈ candidates otherEntries := by
  rw [mem_candidates_iff_hasForm prepared, mem_candidates_iff_hasForm otherPrepared, same]

/-- The inline length of a state is that of its expanded formula. -/
theorem inlineLength_of_mem (prepared : program.prepareAll states = .ok entries)
    {entry : StateId × Prepared} (member : entry ∈ entries)
    : inlineLength entries entry.1 = entry.2.expanded.length := by
  have done := Program.prepare_of_prepareAll prepared
  unfold inlineLength
  split
  · rename_i last found
    obtain ⟨lastMember, same⟩ := List.mem_filter.mp (List.mem_of_getLast? found)
    have lastDone := done last lastMember
    rw [of_decide_eq_true same] at lastDone
    rw [Except.ok.inj (lastDone.symm.trans (done entry member))]
  · rename_i missing
    have empty := List.filter_eq_nil_iff.mp (List.getLast?_eq_none_iff.mp missing)
    exact absurd (decide_eq_true rfl) (empty entry member)

theorem inlineLength_congr (prepared : program.prepareAll states = .ok entries)
    (otherPrepared : program.prepareAll others = .ok otherEntries)
    (same : ∀ id, id ∈ states ↔ id ∈ others)
    : inlineLength entries = inlineLength otherEntries := by
  funext state
  by_cases listed : state ∈ states
  · have otherListed := (same state).mp listed
    rw [← Program.map_fst_prepareAll prepared] at listed
    rw [← Program.map_fst_prepareAll otherPrepared] at otherListed
    obtain ⟨entry, member, rfl⟩ := List.mem_map.mp listed
    obtain ⟨found, otherMember, sameState⟩ := List.mem_map.mp otherListed
    have done := Program.prepare_of_prepareAll prepared entry member
    have otherDone := Program.prepare_of_prepareAll otherPrepared found otherMember
    rw [sameState] at otherDone
    rw [inlineLength_of_mem prepared member, ← sameState,
      inlineLength_of_mem otherPrepared otherMember, Except.ok.inj (done.symm.trans otherDone)]
  · have absent : ∀ {found : List (StateId × Prepared)}, state ∉ found.map Prod.fst
        → inlineLength found state = 0 := by
      intro found missing
      have empty : found.filter (fun entry => entry.1 = state) = [] := by
        refine List.filter_eq_nil_iff.mpr fun entry member here => missing ?_
        exact of_decide_eq_true here ▸ List.mem_map_of_mem member
      rw [inlineLength, empty]
      rfl
    rw [absent (Program.map_fst_prepareAll prepared ▸ listed),
      absent (Program.map_fst_prepareAll otherPrepared ▸ mt (same state).mpr listed)]

-----------------------------------------------------------------------------------------
-- Closed classes of two runs
-----------------------------------------------------------------------------------------

variable {table other : CodeTable} {members otherMembers : List Member}
  {cluster counterpart : Cluster}

/-- A class holds the candidates with the heads of any of its members. -/
theorem Closes.mem_iff_heads (closes : Closes table members cluster) {member : Member}
    (inside : member ∈ cluster.members) (found : Member)
    : found ∈ cluster.members
      ↔ found ∈ members ∧ found.formula.heads = member.formula.heads := by
  obtain ⟨_, signs⟩ := (closes.mem_iff member).mp inside
  rw [closes.mem_iff]
  refine and_congr_right fun _ => ⟨fun foundSigns => ?_, fun same => ?_⟩
  · exact (foundSigns.heads_eq_iff signs).mpr rfl
  · rw [CodeTable.signs_iff_heads] at signs ⊢
    exact same ▸ signs

theorem eq_of_ascending {first second : List Member}
    (ascending : (first.map Member.state).Pairwise (· < ·))
    (otherAscending : (second.map Member.state).Pairwise (· < ·))
    (same : ∀ member, member ∈ first ↔ member ∈ second)
    : first = second := by
  rw [List.pairwise_map] at ascending otherAscending
  have unique : ∀ {members : List Member},
      members.Pairwise (fun one other => one.state < other.state) → members.Nodup := by
    intro members ordered
    refine ordered.imp fun less equal => ?_
    exact Nat.ne_of_lt less (congrArg (fun member => member.state.index) equal)
  refine List.Perm.eq_of_pairwise ?_ ascending otherAscending ?_
  · intro one other _ _ less greater
    exact absurd greater (Nat.lt_asymm less)
  · exact (List.perm_ext_iff_of_nodup (unique ascending) (unique otherAscending)).mpr same

theorem bare_close_eq {id otherId : ClusterId} {signature otherSignature : Signature}
    {collected others : List Member}
    (placeholders : signature.placeholders = otherSignature.placeholders)
    (sorted : Cluster.sortMembers collected = Cluster.sortMembers others)
    : (Cluster.close id signature collected).bare
      = (Cluster.close otherId otherSignature others).bare := by
  simp only [Cluster.bare, Cluster.close, placeholders, sorted]

/-- Classes of two runs with a member in common are equal up to names and codes. -/
theorem Closes.bare_eq (closes : Closes table members cluster)
    (otherCloses : Closes other otherMembers counterpart)
    (same : ∀ member, member ∈ members ↔ member ∈ otherMembers) {member : Member}
    (inside : member ∈ cluster.members) (otherInside : member ∈ counterpart.members)
    : cluster.bare = counterpart.bare := by
  have sameMembers : cluster.members = counterpart.members := by
    apply eq_of_ascending closes.ascending otherCloses.ascending
    intro found
    rw [closes.mem_iff_heads inside, otherCloses.mem_iff_heads otherInside, same]
  have sameCodes := ((closes.mem_iff member).mp inside).2.sameCode
    ((otherCloses.mem_iff member).mp otherInside).2
  obtain ⟨id, signature, collected, rfl⟩ := closes.closed
  obtain ⟨otherId, otherSignature, otherCollected, rfl⟩ := otherCloses.closed
  exact bare_close_eq (CodeTable.placeholders_eq sameCodes) sameMembers

/-- Arguments have the mark of operands, so they change no shape where they stand for operands. -/
theorem shape_withArguments {slots : List (List Nat)} {formula : Formula}
    (operands : ∀ slot ∈ slots, ∀ position ∈ slot, ∀ instruction,
      formula[position]? = some instruction → instruction.isOperand = true)
    : (Cluster.withArguments slots formula).shape = formula.shape := by
  have marks : (Cluster.withArguments slots formula).map Instruction.mark
      = formula.map Instruction.mark := by
    apply List.ext_getElem?
    intro position
    rw [List.getElem?_map, List.getElem?_map, Cluster.withArguments, List.getElem?_mapIdx]
    cases here : formula[position]? with
    | none => rfl
    | some instruction =>
        simp only [Option.map_some]
        split
        · rename_i slot found
          obtain ⟨bound, fed, _⟩ := List.findIdx?_eq_some_iff_getElem.mp found
          have operand := operands _ (List.getElem_mem bound) position
            (List.contains_iff_mem.mp fed) instruction here
          have marked : instruction.mark = "_" := if_pos operand
          rw [marked]
          rfl
        · rfl
  rw [Formula.shape, marks, Formula.shape]

/-- A class has a first member, and the shape of the prototype is that of this member. -/
theorem Closes.exists_first (closes : Closes table members cluster)
    : ∃ first ∈ cluster.members,
        cluster.states.head? = some first.state
        ∧ cluster.prototype.shape = first.formula.shape := by
  have signs := fun member inside => ((closes.mem_iff member).mp inside).2
  have inhabited := closes.inhabited
  obtain ⟨id, signature, collected, rfl⟩ := closes.closed
  cases sorted : (Cluster.close id signature collected).members with
  | nil => exact absurd (congrArg (List.map Member.state) sorted) inhabited
  | cons first rest =>
      have inside : first ∈ (Cluster.close id signature collected).members :=
        sorted ▸ List.mem_cons_self
      have head : ((Cluster.close id signature collected).members.head?.map Member.formula).getD []
          = first.formula := by
        rw [sorted]
        rfl
      have shape : (Cluster.withArguments (Cluster.close id signature collected).arguments
          first.formula).shape = first.formula.shape := by
        apply shape_withArguments
        intro slot slotMember position fed instruction here
        have parameter := ((Cluster.slots_close id signature collected).covers position).mpr
          ⟨slot, slotMember, fed⟩
        have placeholder := (Cluster.mem_parameters_close.mp parameter).1
        obtain ⟨_, head, found, headed, coded⟩ := (signs first inside).getElem? placeholder
        cases here.symm.trans found
        cases CodeTable.codeOf?_inj coded (rfl : table.codeOf? .operand = _)
        exact Instruction.head?_eq_operand_iff.mp headed
      refine ⟨first, List.mem_cons_self, by rw [Cluster.states, sorted]; rfl, ?_⟩
      rw [← shape, ← head]
      rfl

/-- Clusters of one run that compare equal are one. Their first members have the same state and the
same shape, and no two candidates do.
-/
theorem bare_eq_of_compareClusters (prepared : program.prepareAll states = .ok entries)
    (closes : Closes table (candidates entries) cluster)
    (otherCloses : Closes table (candidates entries) counterpart)
    (equal : compareClusters cluster counterpart = .eq)
    : cluster.bare = counterpart.bare := by
  obtain ⟨shapes, sameStates⟩ := eq_of_compareClusters equal
  obtain ⟨first, inside, head, shape⟩ := closes.exists_first
  obtain ⟨second, otherInside, otherHead, otherShape⟩ := otherCloses.exists_first
  rw [sameStates, otherHead] at head
  have candidate := ((closes.mem_iff first).mp inside).1
  have otherCandidate := ((otherCloses.mem_iff second).mp otherInside).1
  rcases candidates_differ prepared candidate otherCandidate (Option.some.inj head).symm with
    same | ⟨_, different⟩
  · subst same
    exact closes.bare_eq otherCloses (fun _ => Iff.rfl) inside otherInside
  · rw [← shape, ← otherShape] at different
    exact absurd shapes different

-----------------------------------------------------------------------------------------
-- All classes of two runs
-----------------------------------------------------------------------------------------

theorem map_signature_closeAll (signed : List (Signature × Member))
    : (closeAll signed).map Cluster.signature = signatures signed := by
  rw [closeAll, List.mapIdx_eq_zipIdx_map, List.map_map]
  exact List.zipIdx_map_fst 0 _

/-- Every candidate that was signed is in one of the classes. -/
theorem exists_mem_closeAll {later : CodeTable} {signed : List (Signature × Member)}
    (done : signAll table members = (.ok signed, later)) {member : Member}
    (candidate : member ∈ members)
    : ∃ cluster ∈ closeAll signed, member ∈ cluster.members := by
  rw [← (signAll_eq_ok done).2.1] at candidate
  obtain ⟨entry, listed, rfl⟩ := List.mem_map.mp candidate
  have occurs : entry.1 ∈ signatures signed := List.mem_eraseDups.mpr (List.mem_map_of_mem listed)
  obtain ⟨position, bound, here⟩ := List.mem_iff_getElem.mp occurs
  refine ⟨_, List.mem_mapIdx.mpr ⟨position, bound, rfl⟩, ?_⟩
  rw [here]
  exact Cluster.mem_members_close.mpr (mem_classOf_iff.mpr listed)

/-- Classes of one run have different signatures, so they have no member in common. -/
theorem nodup_bare_closeAll {later : CodeTable} {signed : List (Signature × Member)}
    (prepared : program.prepareAll states = .ok entries) (distinct : states.Nodup)
    (done : signAll table (candidates entries) = (.ok signed, later))
    : ((closeAll signed).map Cluster.bare).Nodup := by
  have different : (closeAll signed).Pairwise fun first second =>
      first.signature ≠ second.signature := by
    rw [← List.pairwise_map, map_signature_closeAll]
    exact nodup_eraseDups _
  refine List.pairwise_map.mpr (List.Pairwise.imp_of_mem ?_ different)
  intro first second member otherMember unlike same
  have closes := closes_of_mem_closeAll prepared distinct done member
  have otherCloses := closes_of_mem_closeAll prepared distinct done otherMember
  obtain ⟨shared, inside, _⟩ := closes.exists_first
  have sameMembers := congrArg Cluster.members same
  have otherInside : shared ∈ second.bare.members := sameMembers ▸ inside
  have signs := ((closes.mem_iff shared).mp inside).2
  have otherSigns := ((otherCloses.mem_iff shared).mp otherInside).2
  exact unlike ((signs.heads_eq_iff otherSigns).mp rfl)

variable {later otherLater : CodeTable} {signed otherSigned : List (Signature × Member)}

/-- Each class of one run is a class of the other, up to names and codes. -/
theorem bare_mem_of_mem_closeAll (prepared : program.prepareAll states = .ok entries)
    (distinct : states.Nodup)
    (done : signAll table (candidates entries) = (.ok signed, later))
    (otherPrepared : program.prepareAll others = .ok otherEntries) (otherDistinct : others.Nodup)
    (otherDone : signAll other (candidates otherEntries) = (.ok otherSigned, otherLater))
    (same : ∀ id, id ∈ states ↔ id ∈ others) {found : Cluster}
    (member : found ∈ (closeAll signed).map Cluster.bare)
    : found ∈ (closeAll otherSigned).map Cluster.bare := by
  obtain ⟨cluster, clusterMember, rfl⟩ := List.mem_map.mp member
  have sameCandidates := mem_candidates_congr prepared otherPrepared same
  have closes := closes_of_mem_closeAll prepared distinct done clusterMember
  obtain ⟨first, inside, _⟩ := closes.exists_first
  have candidate := ((closes.mem_iff first).mp inside).1
  obtain ⟨counterpart, counterpartMember, otherInside⟩ :=
    exists_mem_closeAll otherDone ((sameCandidates first).mp candidate)
  have otherCloses := closes_of_mem_closeAll otherPrepared otherDistinct otherDone counterpartMember
  rw [closes.bare_eq otherCloses sameCandidates inside otherInside]
  exact List.mem_map_of_mem counterpartMember

/-- Two runs over the same states come to the same survey, up to signatures. -/
theorem survey_closeAll_eq (options : Options)
    (prepared : program.prepareAll states = .ok entries) (distinct : states.Nodup)
    (done : signAll table (candidates entries) = (.ok signed, later))
    (otherPrepared : program.prepareAll others = .ok otherEntries) (otherDistinct : others.Nodup)
    (otherDone : signAll other (candidates otherEntries) = (.ok otherSigned, otherLater))
    (same : ∀ id, id ∈ states ↔ id ∈ others)
    : (survey options entries (closeAll signed)).report
        = (survey options otherEntries (closeAll otherSigned)).report
      ∧ (survey options entries (closeAll signed)).clusters.map Cluster.unsigned
        = (survey options otherEntries (closeAll otherSigned)).clusters.map Cluster.unsigned := by
  apply survey_eq options (inlineLength_congr prepared otherPrepared same)
  · refine (List.perm_ext_iff_of_nodup (nodup_bare_closeAll prepared distinct done)
      (nodup_bare_closeAll otherPrepared otherDistinct otherDone)).mpr fun found => ⟨?_, ?_⟩
    · exact bare_mem_of_mem_closeAll prepared distinct done otherPrepared otherDistinct otherDone
        same
    · exact bare_mem_of_mem_closeAll otherPrepared otherDistinct otherDone prepared distinct done
        fun id => (same id).symm
  · intro first member second otherMember
    exact bare_eq_of_compareClusters prepared
      (closes_of_mem_closeAll prepared distinct done member)
      (closes_of_mem_closeAll prepared distinct done otherMember)

end Mining

end StepPlan
