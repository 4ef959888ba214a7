import Mathlib.Data.List.Nodup
import Mathlib.Data.List.Pairwise
import StepPlan.Proofs.Cluster.Mining
import StepPlan.Proofs.Distinct
import StepPlan.Proofs.Formula.Shortening

/-! A class of candidates has one member for each of its states. The forms of one state differ in
length, so they never agree in their heads, and a class never holds two of them. Its members, once
sorted, ascend strictly, and they are exactly the candidates that its signature is right for.
-/

namespace StepPlan

-----------------------------------------------------------------------------------------
-- The forms of one state
-----------------------------------------------------------------------------------------

theorem Prepared.mem_forms_iff {prepared : Prepared} {form : Formula}
    : form ∈ prepared.candidates ↔ form = prepared.expanded ∨ prepared.folded = some form := by
  simp [Prepared.candidates]

/-- A formula is the expanded or the folded formula of a state. -/
def Program.HasForm (program : Program) (id : StateId) (form : Formula) : Prop :=
  ∃ prepared,
    program.prepare id = .ok prepared
    ∧ (form = prepared.expanded ∨ prepared.folded = some form)

namespace Program

variable {program : Program}

/-- Preparation keeps the states and their order. -/
theorem map_fst_prepareAll {states : List StateId} {entries : List (StateId × Prepared)}
    (done : program.prepareAll states = .ok entries)
    : entries.map Prod.fst = states := by
  induction states generalizing entries with
  | nil =>
      cases done
      rfl
  | cons state rest ih =>
      unfold prepareAll at done
      split at done
      · nomatch done
      · split at done
        · nomatch done
        · rename_i later preparedRest
          cases done
          rw [List.map_cons, ih preparedRest]

/-- A state has a folded formula only if folding changes the expanded one. -/
theorem folded_of_prepare {id : StateId} {prepared : Prepared}
    (done : program.prepare id = .ok prepared) {form : Formula}
    (folded : prepared.folded = some form)
    : prepared.expanded.fold = .ok (form, true) := by
  unfold prepare prepareFormula at done
  split at done
  · nomatch done
  · split at done
    · nomatch done
    · split at done
      · nomatch done
      · rename_i result changed foldedOk
        cases done
        cases changed with
        | true => simpa [foldedOk] using folded
        | false => nomatch folded

theorem nodup_forms {id : StateId} {prepared : Prepared}
    (done : program.prepare id = .ok prepared)
    : prepared.candidates.Nodup := by
  refine List.nodup_cons.mpr ⟨?_, ?_⟩
  · rw [Option.mem_toList]
    intro folded
    exact Nat.lt_irrefl _ (Formula.length_lt_of_fold (folded_of_prepare done folded))
  · cases prepared.folded <;> simp

/-- Different forms of one state differ in length and in shape. -/
theorem forms_differ {id : StateId} {prepared : Prepared}
    (done : program.prepare id = .ok prepared) {first second : Formula}
    (listed : first ∈ prepared.candidates) (otherListed : second ∈ prepared.candidates)
    (nonempty : first ≠ []) (otherNonempty : second ≠ []) (different : first ≠ second)
    : first.length ≠ second.length ∧ first.shape ≠ second.shape := by
  rcases Prepared.mem_forms_iff.mp listed with expanded | folded
  · rcases Prepared.mem_forms_iff.mp otherListed with otherExpanded | otherFolded
    · exact absurd (expanded.trans otherExpanded.symm) different
    · have otherFolded := expanded ▸ folded_of_prepare done otherFolded
      exact ⟨Nat.ne_of_gt (Formula.length_lt_of_fold otherFolded),
        Formula.shape_ne_of_fold otherFolded otherNonempty⟩
  · rcases Prepared.mem_forms_iff.mp otherListed with otherExpanded | otherFolded
    · have folded := otherExpanded ▸ folded_of_prepare done folded
      exact ⟨Nat.ne_of_lt (Formula.length_lt_of_fold folded),
        (Formula.shape_ne_of_fold folded nonempty).symm⟩
    · cases folded.symm.trans otherFolded
      exact absurd rfl different

end Program

namespace Mining

variable {program : Program} {states : List StateId} {entries : List (StateId × Prepared)}

/-- Candidates are the forms of the listed states that are not empty. -/
theorem mem_candidates_iff_hasForm (prepared : program.prepareAll states = .ok entries)
    {member : Member}
    : member ∈ candidates entries
      ↔ member.state ∈ states ∧ program.HasForm member.state member.formula
        ∧ member.formula ≠ [] := by
  have done := Program.prepare_of_prepareAll prepared
  rw [mem_candidates_iff, ← Program.map_fst_prepareAll prepared]
  constructor
  · intro ⟨forms, entry, listed, nonempty⟩
    exact ⟨List.mem_map_of_mem entry, ⟨forms, done _ entry, Prepared.mem_forms_iff.mp listed⟩,
      nonempty⟩
  · intro ⟨listed, ⟨forms, found, form⟩, nonempty⟩
    obtain ⟨⟨state, others⟩, entry, rfl⟩ := List.mem_map.mp listed
    cases found.symm.trans (done _ entry)
    exact ⟨others, entry, Prepared.mem_forms_iff.mpr form, nonempty⟩

/-- Candidates of one state are equal, or they differ in length and in shape. -/
theorem candidates_differ (prepared : program.prepareAll states = .ok entries)
    {first second : Member} (member : first ∈ candidates entries)
    (otherMember : second ∈ candidates entries) (same : first.state = second.state)
    : first = second
      ∨ first.formula.length ≠ second.formula.length
        ∧ first.formula.shape ≠ second.formula.shape := by
  obtain ⟨forms, entry, listed, nonempty⟩ := mem_candidates_iff.mp member
  obtain ⟨otherForms, otherEntry, otherListed, otherNonempty⟩ := mem_candidates_iff.mp otherMember
  have done := Program.prepare_of_prepareAll prepared _ entry
  have otherDone := Program.prepare_of_prepareAll prepared _ otherEntry
  rw [← same] at otherDone
  cases done.symm.trans otherDone
  by_cases equal : first.formula = second.formula
  · cases first
    cases second
    cases same
    cases equal
    exact Or.inl rfl
  · exact Or.inr (Program.forms_differ done listed otherListed nonempty otherNonempty equal)

theorem nodup_candidates (prepared : program.prepareAll states = .ok entries)
    (distinct : states.Nodup)
    : (candidates entries).Nodup := by
  rw [← Program.map_fst_prepareAll prepared] at distinct
  refine List.nodup_flatMap.mpr ⟨?_, ?_⟩
  · intro entry member
    have forms := Program.nodup_forms (Program.prepare_of_prepareAll prepared entry member)
    exact (forms.filter _).map fun _ _ same => congrArg Member.formula same
  · refine (List.pairwise_map.mp distinct).imp ?_
    intro entry other different member here there
    obtain ⟨_, _, rfl⟩ := List.mem_map.mp here
    obtain ⟨_, _, same⟩ := List.mem_map.mp there
    exact different (congrArg Member.state same).symm

/-- Candidates that were signed alike agree in state only if they are equal. -/
theorem eq_of_signs (prepared : program.prepareAll states = .ok entries) {table : CodeTable}
    {signature : Signature} {first second : Member} (member : first ∈ candidates entries)
    (otherMember : second ∈ candidates entries) (signs : table.Signs first.formula signature)
    (otherSigns : table.Signs second.formula signature) (same : first.state = second.state)
    : first = second := by
  rcases candidates_differ prepared member otherMember same with equal | ⟨lengths, _⟩
  · exact equal
  · exact absurd (signs.length_eq.trans otherSigns.length_eq.symm) lengths

-----------------------------------------------------------------------------------------
-- Closed classes
-----------------------------------------------------------------------------------------

/-- (Closes table members cluster) means that the cluster closes the class of its signature among
the members.
-/
structure Closes (table : CodeTable) (members : List Member) (cluster : Cluster) : Prop where
  closed : ∃ id signature collected, cluster = .close id signature collected
  mem_iff
    : ∀ member,
        member ∈ cluster.members
        ↔ member ∈ members ∧ table.Signs member.formula cluster.signature
  ascending : cluster.states.Pairwise (· < ·)
  inhabited : cluster.states ≠ []

theorem Closes.rename {table : CodeTable} {members : List Member} {cluster : Cluster}
    (closes : Closes table members cluster) (id : ClusterId)
    : Closes table members { cluster with id := id } where
  closed := by
    obtain ⟨_, signature, collected, rfl⟩ := closes.closed
    exact ⟨id, signature, collected, rfl⟩
  mem_iff := closes.mem_iff
  ascending := closes.ascending
  inhabited := closes.inhabited

/-- Members of different states ascend strictly once they are sorted. -/
theorem ascending_close {id : ClusterId} {signature : Signature} {collected : List Member}
    (distinct : (collected.map Member.state).Nodup)
    : (Cluster.close id signature collected).states.Pairwise (· < ·) := by
  have sorted := Cluster.sorted_members_close id signature collected
  have apart : (Cluster.close id signature collected).members.Pairwise fun first second =>
      first.state ≠ second.state := by
    have sameStates := (List.mergeSort_perm collected
      fun first second => decide (first.state ≤ second.state)).map Member.state
    exact List.pairwise_map.mp (sameStates.nodup_iff.mpr distinct)
  refine List.pairwise_map.mpr ((sorted.and apart).imp ?_)
  intro first second ⟨le, ne⟩
  exact Nat.lt_of_le_of_ne le (mt Ident.index_inj.mp ne)

theorem classOf_sublist (signed : List (Signature × Member)) (signature : Signature)
    : (classOf signed signature).Sublist (signed.map Prod.snd) := by
  induction signed with
  | nil => exact .slnil
  | cons entry rest ih =>
      unfold classOf at ih ⊢
      by_cases same : entry.1 = signature
      · simpa [same] using ih
      · simpa [same] using ih.cons entry.2

/-- Closing a class of signed candidates closes the class of its signature. -/
theorem closes_close {table later : CodeTable} {signed : List (Signature × Member)}
    (prepared : program.prepareAll states = .ok entries) (distinct : states.Nodup)
    (done : signAll table (candidates entries) = (.ok signed, later)) (id : ClusterId)
    {signature : Signature} (occurs : signature ∈ signatures signed)
    : Closes later (candidates entries)
        (.close id signature (classOf signed signature)) := by
  obtain ⟨_, members, signs⟩ := signAll_eq_ok done
  have mem_iff : ∀ member, member ∈ classOf signed signature
      ↔ member ∈ candidates entries ∧ later.Signs member.formula signature := by
    intro member
    rw [mem_classOf_iff]
    constructor
    · intro entry
      exact ⟨members ▸ List.mem_map_of_mem entry, signs _ entry⟩
    · intro ⟨candidate, right⟩
      rw [← members] at candidate
      obtain ⟨entry, entryMember, rfl⟩ := List.mem_map.mp candidate
      have same := ((signs entry entryMember).heads_eq_iff right).mp rfl
      exact same ▸ entryMember
  refine {
    closed := ⟨id, signature, classOf signed signature, rfl⟩
    mem_iff := fun member => Cluster.mem_members_close.trans (mem_iff member)
    ascending := ascending_close ?_
    inhabited := ?_
  }
  · -- The class is a part of the candidates, which are distinct.
    have part := members ▸ classOf_sublist signed signature
    refine List.Nodup.map_on ?_ ((nodup_candidates prepared distinct).sublist part)
    intro first member second otherMember same
    obtain ⟨candidate, right⟩ := (mem_iff first).mp member
    obtain ⟨otherCandidate, otherRight⟩ := (mem_iff second).mp otherMember
    exact eq_of_signs prepared candidate otherCandidate right otherRight same
  · obtain ⟨entry, member, rfl⟩ := List.mem_map.mp (List.mem_eraseDups.mp occurs)
    have inside : entry.2 ∈ (Cluster.close id entry.1 (classOf signed entry.1)).members :=
      Cluster.mem_members_close.mpr (mem_classOf_iff.mpr member)
    exact List.ne_nil_of_mem (List.mem_map_of_mem inside)

theorem closes_of_mem_closeAll {table later : CodeTable} {signed : List (Signature × Member)}
    (prepared : program.prepareAll states = .ok entries) (distinct : states.Nodup)
    (done : signAll table (candidates entries) = (.ok signed, later)) {cluster : Cluster}
    (member : cluster ∈ closeAll signed)
    : Closes later (candidates entries) cluster := by
  obtain ⟨position, bound, rfl⟩ := List.mem_mapIdx.mp member
  exact closes_close prepared distinct done _ (List.getElem_mem bound)

end Mining

end StepPlan
