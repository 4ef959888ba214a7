import Mathlib
import StepPlan.Cluster.Search
import StepPlan.Proofs.Cluster.Closing
import StepPlan.Proofs.Cluster.Selection
import StepPlan.Proofs.Signature

/-! Queries on closed clusters are exact. Closing orders the members by state, so a search that
halves them ends at the last one with the state that it looks for, if there is one, and a walk
through two clusters passes over no state that they have in common. Members with the same state keep
the order in which they were collected. So the last one that was collected answers for the state.
-/

namespace StepPlan.Cluster

variable {members others : List Member} {state : StateId}

-----------------------------------------------------------------------------------------
-- Bisection
-----------------------------------------------------------------------------------------

/-- (Brackets members state place count) means that the last member whose state is not greater than
the given one is among so many members from a place on, unless all states are greater.
-/
structure Brackets (members : List Member) (state : StateId) (place count : Nat) : Prop where
  above
    : ∀ (later : Nat) (bound : later < members.length),
        place + count ≤ later → state < members[later].state
  reached : ∀ bound : place < members.length, 0 < place → members[place].state ≤ state

theorem brackets_all (members : List Member) (state : StateId)
    : Brackets members state 0 members.length where
  above later bound behind := by omega
  reached _ behind := by omega

/-- The members from the middle on are enough if the state there is not greater. -/
theorem Brackets.upper {place count : Nat} (brackets : Brackets members state place count)
    (middle : place + count / 2 < members.length)
    (reached : members[place + count / 2].state ≤ state)
    : Brackets members state (place + count / 2) (count - count / 2) where
  above later bound behind := brackets.above later bound (by omega)
  reached _ _ := reached

/-- The members up to the middle are enough if the state there is greater, because then all later
ones are.
-/
theorem Brackets.lower
    (sorted : members.Pairwise fun first second => first.state ≤ second.state) {place count : Nat}
    (brackets : Brackets members state place count) (middle : place + count / 2 < members.length)
    (passed : ¬members[place + count / 2].state ≤ state)
    : Brackets members state place (count - count / 2) where
  above later bound behind := by
    have greater : state < members[place + count / 2].state := Nat.lt_of_not_le passed
    rcases Nat.eq_or_lt_of_le (by omega : place + count / 2 ≤ later) with rfl | behindMiddle
    · exact greater
    · exact Nat.lt_of_lt_of_le greater
        (List.pairwise_iff_getElem.mp sorted _ _ middle bound behindMiddle)
  reached := brackets.reached

/-- The search keeps what it looks for among the members that are left, by induction on the halving.
-/
theorem brackets_bisect
    (sorted : members.Pairwise fun first second => first.state ≤ second.state) {place count : Nat}
    (inhabited : 0 < count) (inside : place + count ≤ members.length)
    (brackets : Brackets members state place count)
    : Brackets members state (bisect members state place count inhabited inside) 1 := by
  fun_induction bisect members state place count inhabited inside with
  | case1 place count inhabited inside several middle reached ih =>
      exact ih (brackets.upper middle reached)
  | case2 place count inhabited inside several middle passed ih =>
      exact ih (brackets.lower sorted middle passed)
  | case3 place count inhabited inside single =>
      have one : count = 1 := by omega
      exact one ▸ brackets

/-- If one place is left, the member there is the last one with the state, or there is none. -/
theorem Brackets.getLast?_filter
    (sorted : members.Pairwise fun first second => first.state ≤ second.state) {place : Nat}
    (bound : place < members.length) (brackets : Brackets members state place 1)
    : (members.filter fun member => member.state = state).getLast?
      = if members[place].state = state then some members[place] else none := by
  have passed
      : ∀ (later : Nat) (laterBound : later < members.length),
          place < later → members[later].state ≠ state := by
    intro later laterBound behind same
    have greater := brackets.above later laterBound behind
    rw [same] at greater
    exact Nat.lt_irrefl _ greater
  split
  · rename_i here
    have none : (members.drop (place + 1)).filter (fun member => member.state = state) = [] := by
      rw [List.filter_eq_nil_iff]
      intro member inside same
      obtain ⟨offset, _, rfl⟩ := List.mem_drop_iff_getElem.mp inside
      exact passed (place + 1 + offset) (by omega) (by omega) (of_decide_eq_true same)
    have parts : members.take place ++ members[place] :: members.drop (place + 1) = members := by
      rw [← List.drop_eq_getElem_cons bound, List.take_append_drop]
    refine List.getLast?_eq_some_iff.mpr
      ⟨(members.take place).filter fun member => member.state = state, ?_⟩
    conv_lhs => rw [← parts]
    rw [List.filter_append, List.filter_cons, if_pos (decide_eq_true here), none]
  · rename_i different
    rw [List.getLast?_eq_none_iff, List.filter_eq_nil_iff]
    intro member inside found
    obtain ⟨other, otherBound, rfl⟩ := List.mem_iff_getElem.mp inside
    have same := of_decide_eq_true found
    rcases Nat.lt_trichotomy other place with before | rfl | behind
    · -- The state at the place is neither less nor greater than the one that is looked for.
      have least := List.pairwise_iff_getElem.mp sorted other place otherBound bound before
      have most := brackets.reached bound (by omega)
      rw [same] at least
      exact different (Ident.index_inj.mp (Nat.le_antisymm most least))
    · exact different same
    · exact passed other otherBound behind same

/-- A search among ordered members finds the last one with the state. -/
theorem search?_eq_member? {cluster : Cluster}
    (sorted : cluster.members.Pairwise fun first second => first.state ≤ second.state)
    (state : StateId)
    : cluster.search? state = cluster.member? state := by
  unfold search? place? member?
  split
  · rename_i inhabited
    have brackets := brackets_bisect sorted inhabited (Nat.le_of_eq (Nat.zero_add _))
      (brackets_all cluster.members state)
    rw [brackets.getLast?_filter sorted (Fin.is_lt _)]
    simp only [Fin.getElem_fin]
    split <;> rfl
  · rename_i empty
    have none : cluster.members = [] := List.eq_nil_of_length_eq_zero (by omega)
    simp [none]

-----------------------------------------------------------------------------------------
-- The walk through two clusters
-----------------------------------------------------------------------------------------

/-- What is less than the first state of ordered members is less than all of their states. -/
theorem lt_of_mem_map {first : Member} {rest : List Member}
    (sorted : (first :: rest).Pairwise fun first second => first.state ≤ second.state)
    (less : state < first.state) {found : StateId}
    (among : found ∈ (first :: rest).map Member.state)
    : state < found := by
  obtain ⟨member, inside, rfl⟩ := List.mem_map.mp among
  rcases List.mem_cons.mp inside with rfl | later
  · exact less
  · exact Nat.lt_of_lt_of_le less (List.rel_of_pairwise_cons sorted later)

/-- A walk through ordered members finds out whether there is a common state, by induction on the
members to come. The smaller one of two states is less than all that are to come on the other side.
-/
theorem meet_iff (sorted : members.Pairwise fun first second => first.state ≤ second.state)
    (othersSorted : others.Pairwise fun first second => first.state ≤ second.state)
    : meet members others = true
      ↔ ∃ state ∈ members.map Member.state, state ∈ others.map Member.state := by
  fun_induction meet members others with
  | case1 member rest other others less ih =>
      rw [ih sorted.of_cons othersSorted]
      refine ((List.exists_mem_cons_iff _ _ _).trans (or_iff_right ?_)).symm
      intro inside
      exact Nat.lt_irrefl _ (lt_of_mem_map othersSorted less inside)
  | case2 member rest other others _ greater ih =>
      rw [ih sorted othersSorted.of_cons]
      refine exists_congr fun state => and_congr_right fun inside => ?_
      rw [List.map_cons, List.mem_cons]
      refine (or_iff_right ?_).symm
      rintro rfl
      exact Nat.lt_irrefl _ (lt_of_mem_map sorted greater inside)
  | case3 member rest other others notLess notGreater =>
      have same : member.state = other.state := Ident.index_inj.mp
        (Nat.le_antisymm (Nat.le_of_not_lt notGreater) (Nat.le_of_not_lt notLess))
      exact iff_of_true rfl ⟨member.state, List.mem_cons_self, same ▸ List.mem_cons_self⟩
  | case4 members others ended =>
      refine iff_of_false Bool.false_ne_true ?_
      rintro ⟨state, inside, otherInside⟩
      obtain ⟨member, memberInside, _⟩ := List.mem_map.mp inside
      obtain ⟨other, otherMember, _⟩ := List.mem_map.mp otherInside
      obtain ⟨first, rest, rfl⟩ := List.exists_cons_of_ne_nil (List.ne_nil_of_mem memberInside)
      obtain ⟨second, later, rfl⟩ := List.exists_cons_of_ne_nil (List.ne_nil_of_mem otherMember)
      exact ended first rest second later rfl rfl

-----------------------------------------------------------------------------------------
-- Closed clusters
-----------------------------------------------------------------------------------------

variable {signature otherSignature : Signature} {collected : List Member}

/-- Members with the same state stay in the order in which they were collected. -/
theorem filter_members_close (id : ClusterId) (signature : Signature) (collected : List Member)
    (state : StateId)
    : ((close id signature collected).members.filter fun member => member.state = state)
      = collected.filter fun member => member.state = state := by
  have equal : (collected.filter fun member => member.state = state).Pairwise
      fun first second => decide (first.state ≤ second.state) = true := by
    refine List.pairwise_of_forall_mem_list ?_
    intro first inside second otherInside
    rw [of_decide_eq_true (List.mem_filter.mp inside).2,
      of_decide_eq_true (List.mem_filter.mp otherInside).2]
    exact decide_eq_true (Nat.le_refl _)
  have kept := List.sublist_mergeSort state_le_trans state_le_total equal List.filter_sublist
  have part := kept.filter fun member => member.state = state
  rw [List.filter_filter] at part
  simp only [Bool.and_self] at part
  exact (part.eq_of_length ((List.mergeSort_perm _ _).filter _).length_eq.symm).symm

/-- A closed cluster has one answer for a state: the last member with it that was collected. -/
theorem member?_close (id : ClusterId) (signature : Signature) (collected : List Member)
    (state : StateId)
    : (close id signature collected).member? state
      = (collected.filter fun member => member.state = state).getLast? := by
  rw [member?, filter_members_close]

/-- The last item with a property splits a list. -/
theorem exists_split_of_getLast?_filter {α : Type} {property : α → Bool} {items : List α} {last : α}
    (found : (items.filter property).getLast? = some last)
    : ∃ before after,
        items = before ++ last :: after
        ∧ property last = true
        ∧ ∀ later ∈ after, ¬property later = true := by
  obtain ⟨earlier, parts⟩ := List.getLast?_eq_some_iff.mp found
  obtain ⟨front, back, rfl, _, one⟩ := List.filter_eq_append_iff.mp parts
  obtain ⟨between, after, rfl, _, holds, none⟩ := List.filter_eq_cons_iff.mp one
  refine ⟨front ++ between, after, (List.append_assoc _ _ _).symm, holds, ?_⟩
  exact List.filter_eq_nil_iff.mp none

/-- (SignedAs signature members) means that all members have the signature, whatever table signed
each of them.
-/
def SignedAs (signature : Signature) (members : List Member) : Prop :=
  ∀ member ∈ members, ∃ table : CodeTable, (table.sign member.formula).1 = .ok signature

theorem SignedAs.length (signed : SignedAs signature collected)
    : ∀ member ∈ collected, member.formula.length = signature.length := by
  intro member inside
  obtain ⟨table, done⟩ := signed member inside
  exact (CodeTable.sign_eq_ok (Prod.ext done rfl)).2.length_eq

/-- The row of a member has what its formula has at the first position of each slot. -/
theorem map_some_row_close (id : ClusterId) (signed : SignedAs signature collected)
    {member : Member} (inside : member ∈ collected)
    : ((close id signature collected).row member).map some
      = (close id signature collected).arguments.map fun slot =>
          slot.head?.bind fun position => member.formula[position]? := by
  rw [row, List.map_map]
  refine List.map_congr_left ?_
  intro slot slotMember
  obtain ⟨first, rest, rfl⟩ := List.exists_cons_of_ne_nil
    ((slots_close id signature collected).inhabited slot slotMember)
  exact (getElem?_eq_operand signed.length inside slotMember List.mem_cons_self).symm

/-- (cluster.Answers collected) means that the cluster consists of the members collected and answers
for exactly their states. A call is made for the last member with a state that was collected, and
its arguments are what that member has at the first position of each slot. A search that halves the
members has the same answers.
-/
structure Answers (cluster : Cluster) (collected : List Member) : Prop where
  kept : cluster.members.Perm collected
  contains_iff
    : ∀ state, cluster.contains state = true ↔ ∃ member ∈ collected, member.state = state
  called_iff
    : ∀ state, (cluster.callSite? state).isSome = true ↔ cluster.contains state = true
  calls_last
    : ∀ state call,
        cluster.callSite? state = some call
        → ∃ before member after,
            collected = before ++ member :: after
            ∧ member.state = state
            ∧ (∀ later ∈ after, later.state ≠ state)
            ∧ call = cluster.row member ++ [.routine cluster.id (UInt16.ofNat cluster.arity)]
  row_eq
    : ∀ member ∈ collected,
        (cluster.row member).map some
        = cluster.arguments.map fun slot =>
            slot.head?.bind fun position => member.formula[position]?
  placed : ∀ state, (cluster.place? state).isSome = cluster.contains state
  searched : ∀ state, cluster.search? state = cluster.member? state

/-- (cluster.Compares other collected others) means that two clusters share a member if and only if
the members collected for them have a state in common. A walk through both has the same answer.
-/
structure Compares (cluster other : Cluster) (collected others : List Member) : Prop where
  sharesMember_iff
    : cluster.sharesMember other = true
      ↔ ∃ state,
          (∃ member ∈ collected, member.state = state) ∧ ∃ member ∈ others, member.state = state
  symmetric : other.sharesMember cluster = cluster.sharesMember other
  walked : meet cluster.members other.members = cluster.sharesMember other

theorem contains_close_iff (id : ClusterId) (signature : Signature) (collected : List Member)
    (state : StateId)
    : (close id signature collected).contains state = true
      ↔ ∃ member ∈ collected, member.state = state := by
  simp only [contains, states, List.contains_iff_mem, List.mem_map, mem_members_close]

theorem isSome_member?_close_iff (id : ClusterId) (signature : Signature) (collected : List Member)
    (state : StateId)
    : ((close id signature collected).member? state).isSome = true
      ↔ (close id signature collected).contains state = true := by
  rw [member?_close, contains_close_iff, List.getLast?_isSome]
  simp only [ne_eq, List.filter_eq_nil_iff, decide_eq_true_eq, not_forall, not_not, exists_prop]

theorem answers_close (id : ClusterId) (signed : SignedAs signature collected)
    : (close id signature collected).Answers collected where
  kept := List.mergeSort_perm _ _
  contains_iff := contains_close_iff id signature collected
  called_iff state := by
    rw [callSite?, Option.isSome_map, isSome_member?_close_iff]
  calls_last state call made := by
    obtain ⟨member, found, rfl⟩ := Option.map_eq_some_iff.mp made
    rw [member?_close] at found
    obtain ⟨before, after, parts, here, last⟩ := exists_split_of_getLast?_filter found
    refine ⟨before, member, after, parts, of_decide_eq_true here, ?_, rfl⟩
    intro later inside same
    exact last later inside (decide_eq_true same)
  row_eq _ := map_some_row_close id signed
  placed state := by
    have searched := search?_eq_member? (sorted_members_close id signature collected) state
    rw [Bool.eq_iff_iff, ← isSome_member?_close_iff, ← searched, search?, Option.isSome_map]
  searched := search?_eq_member? (sorted_members_close id signature collected)

theorem sharesMember_iff {cluster other : Cluster}
    : cluster.sharesMember other = true ↔ ∃ state ∈ cluster.states, state ∈ other.states := by
  rw [← not_iff_not, Bool.not_eq_true, sharesMember_eq_false_iff]
  simp only [Apart, List.Disjoint, not_exists, not_and]

theorem compares_close (id otherId : ClusterId) (signature otherSignature : Signature)
    (collected others : List Member)
    : (close id signature collected).Compares (close otherId otherSignature others) collected
        others where
  sharesMember_iff := by
    simp only [sharesMember_iff, states, List.mem_map, mem_members_close]
  symmetric := by
    rw [Bool.eq_iff_iff, sharesMember_iff, sharesMember_iff]
    exact exists_congr fun state => and_comm
  walked := by
    rw [Bool.eq_iff_iff, sharesMember_iff]
    exact meet_iff (sorted_members_close _ _ _) (sorted_members_close _ _ _)

/-- Queries on two clusters are exact, each of them closed from members of one signature that may
repeat a state and come in any order.
-/
theorem close_answers (id otherId : ClusterId) (signed : SignedAs signature collected)
    (otherSigned : SignedAs otherSignature others)
    : (close id signature collected).Answers collected
      ∧ (close otherId otherSignature others).Answers others
      ∧ (close id signature collected).Compares (close otherId otherSignature others) collected
          others :=
  ⟨answers_close id signed, answers_close otherId otherSigned, compares_close _ _ _ _ _ _⟩

/-- A state that adds two variables. -/
def sumMember (state first second : Nat) : Member where
  state := .ofIndex state
  formula := [.var (.ofIndex first), .var (.ofIndex second), .operator .add]

/-- Three sums for two states. The two for the later state are not collected in a row. -/
def sumMembers : List Member :=
  [sumMember 7 0 1, sumMember 3 0 2, sumMember 7 0 3]

/-- A variable for each of two states, one of which has sums as well. -/
def readMembers : List Member :=
  [⟨.ofIndex 9, [.var (.ofIndex 0)]⟩, ⟨.ofIndex 7, [.var (.ofIndex 1)]⟩]

theorem signedAs_sumMembers : SignedAs [0, 0, 1] sumMembers := by
  intro member inside
  simp only [sumMembers, List.mem_cons, List.not_mem_nil, or_false] at inside
  rcases inside with rfl | rfl | rfl <;> exact ⟨.empty, rfl⟩

theorem signedAs_readMembers : SignedAs [0] readMembers := by
  intro member inside
  simp only [readMembers, List.mem_cons, List.not_mem_nil, or_false] at inside
  rcases inside with rfl | rfl <;> exact ⟨.empty, rfl⟩

/-- The state with two sums is called with the variables of the sum that was collected last. -/
theorem close_answers_sums
    : (close (.ofIndex 4) [0, 0, 1] sumMembers).Answers sumMembers
      ∧ (close (.ofIndex 5) [0] readMembers).Answers readMembers
      ∧ (close (.ofIndex 4) [0, 0, 1] sumMembers).Compares (close (.ofIndex 5) [0] readMembers)
          sumMembers readMembers
      ∧ (close (.ofIndex 4) [0, 0, 1] sumMembers).callSite? (.ofIndex 7)
        = some [.var (.ofIndex 3), .routine (.ofIndex 4) 1]
      ∧ meet (close (.ofIndex 4) [0, 0, 1] sumMembers).members
          (close (.ofIndex 5) [0] readMembers).members = true := by
  obtain ⟨answers, otherAnswers, compares⟩ :=
    close_answers (.ofIndex 4) (.ofIndex 5) signedAs_sumMembers signedAs_readMembers
  refine ⟨answers, otherAnswers, compares, ?_, ?_⟩
  · cbv
  · rw [compares.walked]
    exact compares.sharesMember_iff.mpr ⟨.ofIndex 7, by decide, by decide⟩

end StepPlan.Cluster
