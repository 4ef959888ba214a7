import Mathlib.Data.List.Forall2
import StepPlan.Cluster

/-! Closing a cluster abstracts its members. The parameters of the prototype are the positions at
which members differ, and a slot feeds positions whose operands agree in every member. So the
prototype, with the row of a member for its arguments, is that member's formula.
-/

namespace StepPlan.Cluster

-----------------------------------------------------------------------------------------
-- Slots
-----------------------------------------------------------------------------------------

/-- (Slots members positions slots) means that the slots feed exactly the positions, and that the
positions of a slot have one column.
-/
structure Slots (members : List Member) (positions : List Nat) (slots : List (List Nat))
    : Prop where
  inhabited : ∀ slot ∈ slots, slot ≠ []
  covers : ∀ position, position ∈ positions ↔ ∃ slot ∈ slots, position ∈ slot
  uniform
    : ∀ slot ∈ slots, ∀ position ∈ slot, ∀ other ∈ slot,
      column members position = column members other

/-- A position joins a slot with its column, or it gets a slot of its own if there is none. -/
theorem assign_cases (members : List Member) (slots : List (List Nat)) (position : Nat)
    : (∃ before slot after, slots = before ++ slot :: after
        ∧ feeds members position slot = true
        ∧ assign members slots position = before ++ (slot ++ [position]) :: after)
      ∨ (∀ slot ∈ slots, feeds members position slot = false)
        ∧ assign members slots position = slots ++ [[position]] := by
  unfold assign
  split
  · rename_i index found
    obtain ⟨bound, fed, _⟩ := List.findIdx?_eq_some_iff_getElem.mp found
    obtain ⟨before, slot, after, parts, length, modified⟩ :=
      List.exists_of_modify (fun positions => positions ++ [position]) bound
    subst parts
    have here : (before ++ slot :: after)[index] = slot := by simp [← length]
    rw [here] at fed
    exact Or.inl ⟨before, slot, after, rfl, fed, modified⟩
  · rename_i missing
    exact Or.inr ⟨List.findIdx?_eq_none_iff.mp missing, rfl⟩

theorem column_eq_of_feeds {members : List Member} {position : Nat} {slot : List Nat}
    (fed : feeds members position slot = true)
    : ∃ first ∈ slot, column members first = column members position := by
  cases slot with
  | nil => nomatch fed
  | cons first rest => exact ⟨first, List.mem_cons_self, by simpa [feeds] using fed⟩

theorem slots_nil (members : List Member) : Slots members [] [] :=
  ⟨by simp, by simp, by simp⟩

/-- Assigning one more position keeps the slots right. -/
theorem Slots.assign {members : List Member} {positions : List Nat} {slots : List (List Nat)}
    (right : Slots members positions slots) (position : Nat)
    : Slots members (positions ++ [position]) (assign members slots position) := by
  obtain ⟨before, slot, after, rfl, fed, result⟩ | ⟨_, result⟩ :=
    assign_cases members slots position
  · obtain ⟨inhabitedBefore, inhabitedFrom⟩ := List.forall_mem_append.mp right.inhabited
    obtain ⟨uniformBefore, uniformFrom⟩ := List.forall_mem_append.mp right.uniform
    obtain ⟨uniformSlot, uniformAfter⟩ := List.forall_mem_cons.mp uniformFrom
    rw [result]
    refine ⟨?_, ?_, ?_⟩
    · refine List.forall_mem_append.mpr ⟨inhabitedBefore, List.forall_mem_cons.mpr ⟨by simp, ?_⟩⟩
      exact (List.forall_mem_cons.mp inhabitedFrom).2
    · intro other
      rw [List.mem_append, right.covers]
      simp only [List.mem_append, List.mem_cons, or_and_right, exists_or, exists_eq_left,
        List.not_mem_nil, or_assoc, or_comm, or_left_comm]
    · refine List.forall_mem_append.mpr ⟨uniformBefore, List.forall_mem_cons.mpr ⟨?_, uniformAfter⟩⟩
      obtain ⟨first, firstMember, same⟩ := column_eq_of_feeds fed
      have all : ∀ other ∈ slot ++ [position], column members other = column members position := by
        refine List.forall_mem_append.mpr ⟨?_, List.forall_mem_singleton.mpr rfl⟩
        exact fun other member => (uniformSlot other member first firstMember).trans same
      exact fun one oneMember other otherMember =>
        (all one oneMember).trans (all other otherMember).symm
  · rw [result]
    refine ⟨?_, ?_, ?_⟩
    · exact List.forall_mem_append.mpr ⟨right.inhabited, by simp⟩
    · intro other
      simp only [List.mem_append, List.mem_singleton, right.covers, or_and_right, exists_or,
        exists_eq_left]
    · exact List.forall_mem_append.mpr ⟨right.uniform, by simp⟩

/-- Assigning position after position keeps the slots right, by induction on the positions. -/
theorem Slots.foldl {members : List Member} {positions : List Nat} {slots : List (List Nat)}
    (right : Slots members positions slots) (added : List Nat)
    : Slots members (positions ++ added) (added.foldl (Cluster.assign members) slots) := by
  induction added generalizing positions slots with
  | nil => simpa using right
  | cons position rest ih => simpa using ih (right.assign position)

theorem slots_close (id : ClusterId) (signature : Signature) (collected : List Member)
    : Slots (close id signature collected).members (close id signature collected).parameters
      (close id signature collected).arguments :=
  (slots_nil _).foldl _

-----------------------------------------------------------------------------------------
-- Members of one signature
-----------------------------------------------------------------------------------------

/-- (Uniform signature members) means that the members have the length of the signature, operands
where it has placeholders, and the same instructions everywhere else.
-/
structure Uniform (signature : Signature) (members : List Member) : Prop where
  length : ∀ member ∈ members, member.formula.length = signature.length
  operand
    : ∀ member ∈ members, ∀ (position : Nat) (instruction : Instruction),
      signature[position]? = some Signature.placeholder
      → member.formula[position]? = some instruction
      → instruction.isOperand = true
  same
    : ∀ member ∈ members, ∀ other ∈ members, ∀ position : Nat,
      signature[position]? ≠ some Signature.placeholder
      → member.formula[position]? = other.formula[position]?

/-- Members of one column are equal where the column does not vary. -/
theorem eq_of_not_varies {members : List Member} {position : Nat}
    (constant : varies (column members position) = false) {member other : Member}
    (inside : member ∈ members) (otherInside : other ∈ members)
    : member.formula[position]? = other.formula[position]? := by
  cases members with
  | nil => nomatch inside
  | cons first rest =>
      have all : ∀ found ∈ first :: rest, found.formula[position]? = first.formula[position]? := by
        refine List.forall_mem_cons.mpr ⟨rfl, ?_⟩
        intro found member
        simpa [column, varies] using
          List.any_eq_false.mp constant _ (List.mem_map_of_mem member)
      rw [all member inside, all other otherInside]

theorem mem_members_close {id : ClusterId} {signature : Signature} {collected : List Member}
    {member : Member}
    : member ∈ (close id signature collected).members ↔ member ∈ collected :=
  List.mem_mergeSort

theorem state_le_trans (first second third : Member)
    : decide (first.state ≤ second.state) = true → decide (second.state ≤ third.state) = true
      → decide (first.state ≤ third.state) = true := by
  simp only [decide_eq_true_eq]
  exact Nat.le_trans

theorem state_le_total (first second : Member)
    : (decide (first.state ≤ second.state) || decide (second.state ≤ first.state)) = true := by
  simp only [Bool.or_eq_true, decide_eq_true_eq]
  exact Nat.le_total _ _

theorem sorted_members_close (id : ClusterId) (signature : Signature) (collected : List Member)
    : (close id signature collected).members.Pairwise fun first second =>
        first.state ≤ second.state :=
  (List.pairwise_mergeSort state_le_trans state_le_total collected).imp of_decide_eq_true

/-- The parameters are the placeholders at which some members differ. -/
theorem mem_parameters_close {id : ClusterId} {signature : Signature} {collected : List Member}
    {position : Nat}
    : position ∈ (close id signature collected).parameters
      ↔ signature[position]? = some Signature.placeholder
        ∧ varies (column (close id signature collected).members position) = true := by
  have inside : signature[position]? = some Signature.placeholder
      → position < signature.length :=
    fun here => (List.getElem?_eq_some_iff.mp here).1
  simp only [close, Signature.placeholders, List.mem_filter, List.mem_range, beq_iff_eq]
  constructor
  · rintro ⟨⟨_, here⟩, differs⟩
    exact ⟨here, differs⟩
  · rintro ⟨here, differs⟩
    exact ⟨⟨inside here, here⟩, differs⟩

/-- Members agree at every position that is no parameter. -/
theorem eq_of_not_parameter {id : ClusterId} {signature : Signature} {collected : List Member}
    (uniform : Uniform signature collected) {position : Nat}
    (constant : position ∉ (close id signature collected).parameters) {member other : Member}
    (inside : member ∈ collected) (otherInside : other ∈ collected)
    : member.formula[position]? = other.formula[position]? := by
  by_cases here : signature[position]? = some Signature.placeholder
  · have same : ¬ varies (column (close id signature collected).members position) = true :=
      fun differs => constant (mem_parameters_close.mpr ⟨here, differs⟩)
    exact eq_of_not_varies (Bool.eq_false_iff.mpr same) (mem_members_close.mpr inside)
      (mem_members_close.mpr otherInside)
  · exact uniform.same member inside other otherInside position here

/-- If the members have the length of the signature, a slot's operand in a member is what the member
has at every position of the slot.
-/
theorem getElem?_eq_operand {id : ClusterId} {signature : Signature} {collected : List Member}
    (length : ∀ member ∈ collected, member.formula.length = signature.length) {member : Member}
    (inside : member ∈ collected) {slot : List Nat}
    (slotMember : slot ∈ (close id signature collected).arguments) {position : Nat}
    (fed : position ∈ slot)
    : member.formula[position]? = some (operand member slot) := by
  have slots := slots_close id signature collected
  have parameter := (slots.covers position).mpr ⟨slot, slotMember, fed⟩
  obtain ⟨here, _⟩ := mem_parameters_close.mp parameter
  have bound : position < member.formula.length := by
    rw [length member inside]
    exact (List.getElem?_eq_some_iff.mp here).1
  have found := List.getElem?_eq_getElem bound
  have value : operand member slot = member.formula[position] := by
    cases slot with
    | nil => nomatch fed
    | cons first rest =>
        have same := slots.uniform _ slotMember first List.mem_cons_self position fed
        have sameHere := List.map_inj_left.mp same member (mem_members_close.mpr inside)
        simp only [operand, List.head?_cons, Option.bind_some, sameHere, found, Option.getD_some]
  rw [value]
  exact found

/-- A slot's operand in a member is what the member has at every position of the slot, and it is an
operand.
-/
theorem operand_eq {id : ClusterId} {signature : Signature} {collected : List Member}
    (uniform : Uniform signature collected) {member : Member} (inside : member ∈ collected)
    {slot : List Nat} (slotMember : slot ∈ (close id signature collected).arguments)
    {position : Nat} (fed : position ∈ slot)
    : member.formula[position]? = some (operand member slot)
      ∧ (operand member slot).isOperand = true := by
  have found := getElem?_eq_operand uniform.length inside slotMember fed
  have parameter := ((slots_close id signature collected).covers position).mpr
    ⟨slot, slotMember, fed⟩
  obtain ⟨here, _⟩ := mem_parameters_close.mp parameter
  exact ⟨found, uniform.operand member inside position _ here found⟩

-----------------------------------------------------------------------------------------
-- The prototype
-----------------------------------------------------------------------------------------

/-- (Abstracts row original replacement) means that the replacement is the original instruction, or
the argument whose place in the row holds it.
-/
def Abstracts (row : List Instruction) (original replacement : Instruction) : Prop :=
  replacement = original
    ∨ ∃ slot, replacement = .argument (UInt16.ofNat slot) ∧ row[slot]? = some original

/-- The prototype is made from the formula of one of the members. -/
theorem prototype_close (id : ClusterId) (signature : Signature) {collected : List Member}
    (nonempty : collected ≠ [])
    : ∃ first ∈ collected, (close id signature collected).prototype
      = withArguments (close id signature collected).arguments first.formula := by
  cases sorted : sortMembers collected with
  | nil =>
      obtain ⟨member, inside⟩ := List.exists_mem_of_ne_nil collected nonempty
      have kept : member ∈ sortMembers collected := List.mem_mergeSort.mpr inside
      rw [sorted] at kept
      nomatch kept
  | cons first rest =>
      have inside : first ∈ sortMembers collected := sorted ▸ List.mem_cons_self
      refine ⟨first, List.mem_mergeSort.mp inside, ?_⟩
      simp only [close, sorted, List.head?_cons, Option.map_some, Option.getD_some]

/-- With the row of a member for its arguments, the prototype is the member's formula, instruction
by instruction.
-/
theorem abstracts_prototype (id : ClusterId) {signature : Signature} {collected : List Member}
    (uniform : Uniform signature collected) {member : Member} (inside : member ∈ collected)
    : List.Forall₂ (Abstracts ((close id signature collected).row member)) member.formula
      (close id signature collected).prototype := by
  obtain ⟨first, firstInside, prototype⟩ :=
    prototype_close id signature (List.ne_nil_of_mem inside)
  have length : first.formula.length = member.formula.length := by
    rw [uniform.length first firstInside, uniform.length member inside]
  rw [prototype, List.forall₂_iff_get]
  refine ⟨by simp [withArguments, length], ?_⟩
  intro position bound _
  simp only [List.get_eq_getElem, withArguments, List.getElem_mapIdx]
  split
  · -- A slot feeds the position, and the member's row holds its operand there.
    rename_i slot found
    obtain ⟨slotBound, fed, _⟩ := List.findIdx?_eq_some_iff_getElem.mp found
    have operandHere := (operand_eq uniform inside (List.getElem_mem slotBound)
      (List.contains_iff_mem.mp fed)).1
    rw [List.getElem?_eq_getElem bound] at operandHere
    refine Or.inr ⟨slot, rfl, ?_⟩
    rw [row, List.getElem?_map, List.getElem?_eq_getElem slotBound, Option.map_some, operandHere]
  · -- No slot feeds it, so all members agree here with the one that the prototype is made from.
    rename_i missing
    have constant : position ∉ (close id signature collected).parameters := by
      intro parameter
      obtain ⟨slot, slotMember, fed⟩ :=
        ((slots_close id signature collected).covers position).mp parameter
      have unfed := List.findIdx?_eq_none_iff.mp missing slot slotMember
      rw [List.contains_iff_mem.mpr fed] at unfed
      nomatch unfed
    have same := eq_of_not_parameter uniform constant firstInside inside
    rw [List.getElem?_eq_getElem bound, List.getElem?_eq_getElem (length ▸ bound)] at same
    exact Or.inl (Option.some.inj same)

/-- The row of a member consists of operands of the member's formula. -/
theorem mem_row_close (id : ClusterId) {signature : Signature} {collected : List Member}
    (uniform : Uniform signature collected) {member : Member} (inside : member ∈ collected)
    {instruction : Instruction}
    (entry : instruction ∈ (close id signature collected).row member)
    : instruction ∈ member.formula ∧ instruction.isOperand = true := by
  obtain ⟨slot, slotMember, rfl⟩ := List.mem_map.mp entry
  obtain ⟨position, fed⟩ := List.exists_mem_of_ne_nil slot
    ((slots_close id signature collected).inhabited slot slotMember)
  obtain ⟨found, isOperand⟩ := operand_eq uniform inside slotMember fed
  exact ⟨List.mem_of_getElem? found, isOperand⟩

end StepPlan.Cluster
