import StepPlan.Mining
import StepPlan.Proofs.Cluster.Closing
import StepPlan.Proofs.Signature

/-! Where clusters come from. Selecting, sorting and renaming leave clusters otherwise as they are,
so every cluster that survives closes the class of one signature. Its members are candidates, which
come from the states that were prepared, and which were signed with that signature.
-/

namespace StepPlan

/-- Preparation that succeeds has prepared every state that it lists, by induction on the states. -/
theorem Program.prepare_of_prepareAll {program : Program} {states : List StateId}
    {entries : List (StateId × Prepared)} (done : program.prepareAll states = .ok entries)
    : ∀ entry ∈ entries, program.prepare entry.1 = .ok entry.2 := by
  induction states generalizing entries with
  | nil =>
      cases done
      exact nofun
  | cons state rest ih =>
      unfold prepareAll at done
      split at done
      · nomatch done
      · rename_i prepared first
        split at done
        · nomatch done
        · rename_i later preparedRest
          cases done
          exact List.forall_mem_cons.mpr ⟨first, ih preparedRest⟩

namespace Mining

/-- Candidates are the non-empty forms of the states that were prepared. -/
theorem mem_candidates_iff {entries : List (StateId × Prepared)} {member : Member}
    : member ∈ candidates entries
      ↔ ∃ prepared, (member.state, prepared) ∈ entries
        ∧ member.formula ∈ prepared.candidates
        ∧ member.formula ≠ [] := by
  simp only [candidates, List.mem_flatMap, List.mem_map, List.mem_filter, Bool.not_eq_true',
    List.isEmpty_eq_false_iff]
  constructor
  · rintro ⟨⟨state, prepared⟩, entry, formula, ⟨listed, nonempty⟩, rfl⟩
    exact ⟨prepared, entry, listed, nonempty⟩
  · rintro ⟨prepared, entry, listed, nonempty⟩
    exact ⟨_, entry, member.formula, ⟨listed, nonempty⟩, rfl⟩

/-- Signing that succeeds has signed every candidate, and all signatures are right for the table it
leaves. Induction on the candidates.
-/
theorem signAll_eq_ok {table later : CodeTable} {members : List Member}
    {signed : List (Signature × Member)}
    (done : signAll table members = (.ok signed, later))
    : table.labels <+: later.labels
      ∧ signed.map Prod.snd = members
      ∧ ∀ entry ∈ signed, later.Signs entry.2.formula entry.1 := by
  induction members generalizing table signed with
  | nil =>
      cases done
      exact ⟨List.prefix_rfl, rfl, nofun⟩
  | cons member rest ih =>
      unfold signAll at done
      split at done
      · nomatch done
      · rename_i signature next first
        split at done
        · nomatch done
        · rename_i signedRest last restDone
          cases done
          obtain ⟨grown, signs⟩ := CodeTable.sign_eq_ok first
          obtain ⟨grownMore, membersRest, signsRest⟩ := ih restDone
          refine ⟨grown.trans grownMore, by rw [List.map_cons, membersRest], ?_⟩
          exact List.forall_mem_cons.mpr ⟨signs.mono grownMore, signsRest⟩

theorem mem_classOf_iff {signed : List (Signature × Member)} {signature : Signature}
    {member : Member}
    : member ∈ classOf signed signature ↔ (signature, member) ∈ signed := by
  simp only [classOf, List.mem_filterMap]
  constructor
  · rintro ⟨⟨found, candidate⟩, entry, kept⟩
    obtain ⟨rfl, rfl⟩ := by simpa using kept
    exact entry
  · intro entry
    exact ⟨_, entry, by simp⟩

/-- The members of a class are candidates that its signature is right for. -/
theorem signs_of_mem_classOf {table later : CodeTable} {members : List Member}
    {signed : List (Signature × Member)} (done : signAll table members = (.ok signed, later))
    {signature : Signature} {member : Member} (inside : member ∈ classOf signed signature)
    : member ∈ members ∧ later.Signs member.formula signature := by
  obtain ⟨_, candidates, signs⟩ := signAll_eq_ok done
  have entry := mem_classOf_iff.mp inside
  exact ⟨candidates ▸ List.mem_map_of_mem entry, signs _ entry⟩

/-- Members of one signature are uniform, if every head but that of an operand belongs to one
instruction of theirs.
-/
theorem uniform_of_signs {table : CodeTable} {signature : Signature} {members : List Member}
    (signs : ∀ member ∈ members, table.Signs member.formula signature)
    (exact : ∀ first second head, (∃ member ∈ members, first ∈ member.formula)
      → (∃ member ∈ members, second ∈ member.formula) → first.head? = some head
      → second.head? = some head → head ≠ .operand → first = second)
    : Cluster.Uniform signature members where
  length member inside := (signs member inside).length_eq
  operand member inside position instruction here found := by
    obtain ⟨_, head, foundAgain, headed, coded⟩ := (signs member inside).getElem? here
    obtain rfl := Option.some.inj (found.symm.trans foundAgain)
    obtain rfl : head = .operand := CodeTable.codeOf?_inj coded rfl
    exact Instruction.head?_eq_operand_iff.mp headed
  same member inside other otherInside position structural := by
    cases here : signature[position]? with
    | none =>
        have beyond := List.getElem?_eq_none_iff.mp here
        rw [List.getElem?_eq_none ((signs member inside).length_eq ▸ beyond),
          List.getElem?_eq_none ((signs other otherInside).length_eq ▸ beyond)]
    | some code =>
        obtain ⟨first, head, found, headed, coded⟩ := (signs member inside).getElem? here
        obtain ⟨second, otherHead, otherFound, otherHeaded, otherCoded⟩ :=
          (signs other otherInside).getElem? here
        obtain rfl := CodeTable.codeOf?_inj coded otherCoded
        have notOperand : head ≠ .operand := by
          rintro rfl
          exact structural (here.trans coded.symm)
        rw [found, otherFound, exact first second head
          ⟨member, inside, List.mem_of_getElem? found⟩
          ⟨other, otherInside, List.mem_of_getElem? otherFound⟩ headed otherHeaded notOperand]

theorem mem_of_mem_select {inline : StateId → Nat} {viable : List Cluster} {cluster : Cluster}
    (selected : cluster ∈ select inline viable)
    : cluster ∈ viable := by
  obtain ⟨entry, kept, rfl⟩ := List.mem_map.mp selected
  exact List.fst_mem_of_mem_zipIdx (List.mem_filter.mp kept).1

/-- Every cluster that survives closes the class of one signature. -/
theorem eq_close_of_mem_survey {options : Options} {entries : List (StateId × Prepared)}
    {signed : List (Signature × Member)} {cluster : Cluster}
    (survives : cluster ∈ (survey options entries (closeAll signed)).clusters)
    : ∃ id signature, cluster = .close id signature (classOf signed signature) := by
  obtain ⟨position, bound, rfl⟩ := List.mem_mapIdx.mp survives
  have selected := List.mem_mergeSort.mp (List.getElem_mem bound)
  have closed := (List.mem_filter.mp (List.mem_mergeSort.mp (mem_of_mem_select selected))).1
  obtain ⟨place, placeBound, original⟩ := List.mem_mapIdx.mp closed
  exact ⟨.ofIndex position, (signatures signed)[place], by rw [← original]; rfl⟩

end Mining

end StepPlan
