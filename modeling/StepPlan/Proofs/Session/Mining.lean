import StepPlan.Proofs.Cluster.CallSite
import StepPlan.Proofs.Cluster.Classes
import StepPlan.Proofs.Cluster.Selection

/-! What a search for clusters in a session comes to. The set that it returns is well formed, its
members are forms of listed states, and it misses no form with the signature of one of its clusters.
-/

namespace StepPlan

namespace Session

variable {session later : Session} {states : List StateId} {set : ClusterSet}

/-- A search that succeeds returns the empty set without signing anything if clustering is disabled,
and otherwise it surveys the classes of all candidates.
-/
theorem mineFor_cases (mined : session.mineFor states = (.ok set, later))
    : (session.options.disableClustering = true ∧ set = .empty)
      ∨ session.options.disableClustering = false
        ∧ ∃ entries signed,
            session.program.prepareAll states.eraseDups = .ok entries
            ∧ Mining.signAll session.codes (Mining.candidates entries) = (.ok signed, later.codes)
            ∧ set = Mining.survey session.options entries (Mining.closeAll signed) := by
  unfold mineFor mine at mined
  split at mined
  · nomatch mined
  · rename_i entries prepared
    dsimp only at mined
    split at mined
    · rename_i disabled
      cases mined
      exact Or.inl ⟨disabled, rfl⟩
    · rename_i enabled
      split at mined
      · nomatch mined
      · rename_i signed table signedAll
        cases mined
        refine Or.inr ⟨Bool.eq_false_of_not_eq_true enabled, entries, signed, prepared, ?_, rfl⟩
        exact signedAll

theorem wellFormed_empty (minimum : Nat) : ClusterSet.empty.WellFormed minimum := by
  constructor <;> simp [ClusterSet.empty, ClusterSet.clusterOf?_eq_find?]

/-- A surviving cluster closes the class of its signature among the candidates, which are all
signed.
-/
theorem closes_of_mem_mined (mined : session.mineFor states = (.ok set, later)) {cluster : Cluster}
    (survives : cluster ∈ set.clusters)
    : ∃ entries,
        session.program.prepareAll states.eraseDups = .ok entries
        ∧ (∀ member ∈ Mining.candidates entries,
            ∃ signature, later.codes.Signs member.formula signature)
        ∧ Mining.Closes later.codes (Mining.candidates entries) cluster := by
  rcases mineFor_cases mined with ⟨_, rfl⟩ | ⟨_, entries, signed, prepared, done, rfl⟩
  · nomatch survives
  · obtain ⟨original, inside, _, same⟩ := Mining.exists_closed survives
    have closes := Mining.closes_of_mem_closeAll prepared (nodup_eraseDups _) done inside
    refine ⟨entries, prepared, ?_, same ▸ closes.rename cluster.id⟩
    intro member candidate
    obtain ⟨_, members, signs⟩ := Mining.signAll_eq_ok done
    rw [← members] at candidate
    obtain ⟨entry, entryMember, rfl⟩ := List.mem_map.mp candidate
    exact ⟨entry.1, signs entry entryMember⟩

/-- A form that is signed with the signature of a surviving cluster is not empty, since the members
of the cluster are not.
-/
theorem ne_nil_of_sign (mined : session.mineFor states = (.ok set, later)) {cluster : Cluster}
    (survives : cluster ∈ set.clusters) {form : Formula}
    (signed : (later.codes.sign form).1 = .ok cluster.signature)
    : form ≠ [] := by
  intro empty
  obtain ⟨entries, prepared, _, closes⟩ := closes_of_mem_mined mined survives
  obtain ⟨state, listed⟩ := List.exists_mem_of_ne_nil _ closes.inhabited
  obtain ⟨member, inside, _⟩ := List.mem_map.mp listed
  obtain ⟨candidate, signs⟩ := (closes.mem_iff member).mp inside
  obtain ⟨_, _, nonempty⟩ := (Mining.mem_candidates_iff_hasForm prepared).mp candidate
  rw [empty] at signed
  rw [← Except.ok.inj signed] at signs
  exact nonempty (List.forall₂_nil_right_iff.mp signs)

/-- A search returns a well-formed set. The members of its clusters are forms of listed states with
the signature of the cluster, and every form of a listed state with that signature is a member.
-/
theorem mineFor_wellFormed (mined : session.mineFor states = (.ok set, later))
    : set.WellFormed session.options.minClusterSize
      ∧ (∀ cluster ∈ set.clusters,
          ∀ member ∈ cluster.members,
            member.state ∈ states
            ∧ session.program.HasForm member.state member.formula
            ∧ member.formula ≠ []
            ∧ later.codes.sign member.formula = (.ok cluster.signature, later.codes))
      ∧ ∀ id ∈ states,
          ∀ form,
            session.program.HasForm id form
            → ∀ cluster ∈ set.clusters,
                (later.codes.sign form).1 = .ok cluster.signature
                → ⟨id, form⟩ ∈ cluster.members := by
  refine ⟨?_, ?_, ?_⟩
  · rcases mineFor_cases mined with ⟨_, rfl⟩ | ⟨_, entries, signed, prepared, done, rfl⟩
    · exact wellFormed_empty _
    · have closes : ∀ cluster ∈ Mining.closeAll signed,
          Mining.Closes later.codes (Mining.candidates entries) cluster :=
        fun cluster => Mining.closes_of_mem_closeAll prepared (nodup_eraseDups _) done
      apply Mining.wellFormed_survey
      · exact fun cluster member => (closes cluster member).ascending
      · exact fun cluster member => (closes cluster member).inhabited
  · intro cluster survives member inside
    obtain ⟨entries, prepared, _, closes⟩ := closes_of_mem_mined mined survives
    obtain ⟨candidate, signs⟩ := (closes.mem_iff member).mp inside
    obtain ⟨listed, form, nonempty⟩ := (Mining.mem_candidates_iff_hasForm prepared).mp candidate
    exact ⟨List.mem_eraseDups.mp listed, form, nonempty, signs.sign_eq⟩
  · intro id listed form hasForm cluster survives signed
    obtain ⟨entries, prepared, allSigned, closes⟩ := closes_of_mem_mined mined survives
    have candidate : ⟨id, form⟩ ∈ Mining.candidates entries :=
      (Mining.mem_candidates_iff_hasForm prepared).mpr
        ⟨List.mem_eraseDups.mpr listed, hasForm, ne_nil_of_sign mined survives signed⟩
    obtain ⟨signature, signs⟩ := allSigned _ candidate
    rw [signs.sign_eq] at signed
    cases signed
    exact (closes.mem_iff _).mpr ⟨candidate, signs⟩

/-- The two shifts share a cluster, although one of them is listed twice and has to be folded. -/
theorem mineFor_wellFormed_shifts
    : (shifts.mineFor [.ofIndex 1, .ofIndex 0, .ofIndex 1]).1
        = .ok ⟨[shiftsCluster], ⟨2, 1, 0, 1, 11⟩⟩
      ∧ ClusterSet.WellFormed ⟨[shiftsCluster], ⟨2, 1, 0, 1, 11⟩⟩ 2 := by
  have mined : shifts.mineFor [.ofIndex 1, .ofIndex 0, .ofIndex 1]
      = (.ok ⟨[shiftsCluster], ⟨2, 1, 0, 1, 11⟩⟩,
          (shifts.mineFor [.ofIndex 1, .ofIndex 0, .ofIndex 1]).2) := by
    cbv
  have minimum : shifts.options.minClusterSize = 2 := by cbv
  exact ⟨congrArg Prod.fst mined, minimum ▸ (mineFor_wellFormed mined).1⟩

end Session

end StepPlan
