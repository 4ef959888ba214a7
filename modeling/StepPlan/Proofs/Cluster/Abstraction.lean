import StepPlan.Proofs.Cluster.CallSite

/-! A closed cluster is the least abstraction of its members. Its parameters are the operand
positions at which members differ, and slots are shared by exactly those parameters that agree in
every member. The prototype gives back each member for the row of that member, and no body with
fewer slots does so for all of them.
-/

namespace StepPlan

/-- What an instruction of a routine stands for when the routine is given a row of arguments. A
parameter beyond the row stands for itself.
-/
def Instruction.instantiate (row : List Instruction) : Instruction → Instruction
  | .argument place => row[place.toNat]?.getD (.argument place)
  | other => other

/-- The body of a routine with a row of arguments in the place of its parameters. -/
def Formula.instantiate (row : List Instruction) (body : Formula) : Formula :=
  body.map (Instruction.instantiate row)

/-- A run only depends on how many values are taken at each position, if all values are alike.
Induction on the formula.
-/
theorem Formula.leaves_of_map_pops {first second : Formula}
    (same : first.map Instruction.pops = second.map Instruction.pops) {stack result : List Unit}
    (run : first.Leaves (fun _ _ => ()) stack result)
    : second.Leaves (fun _ _ => ()) stack result := by
  induction first generalizing second stack with
  | nil => rwa [List.map_eq_nil_iff.mp same.symm]
  | cons instruction rest ih =>
      obtain ⟨other, others, rfl, pops, later⟩ := List.map_eq_cons_iff.mp same.symm
      obtain ⟨enough, after⟩ := leaves_cons.mp run
      rw [← pops] at enough after
      exact leaves_cons.mpr ⟨enough, ih later.symm after⟩

theorem Formula.isValid_of_map_pops {first second : Formula}
    (same : first.map Instruction.pops = second.map Instruction.pops)
    (valid : first.isValid = true)
    : second.isValid = true := by
  obtain ⟨stack, run, few⟩ := isValid_iff.mp valid
  exact isValid_iff.mpr ⟨stack, leaves_of_map_pops same run, few⟩

namespace Cluster

variable {members : List Member} {positions : List Nat} {slots : List (List Nat)}

-----------------------------------------------------------------------------------------
-- Slots in order
-----------------------------------------------------------------------------------------

/-- (Ordered members positions slots) means that the slots divide the positions, that positions
ascend within a slot, and that first positions ascend from slot to slot and have different columns.
-/
structure Ordered (members : List Member) (positions : List Nat) (slots : List (List Nat))
    : Prop where
  perm : slots.flatten.Perm positions
  ascending : ∀ slot ∈ slots, slot.Pairwise (· < ·)
  firsts : (slots.filterMap List.head?).Pairwise (· < ·)
  separate
    : (slots.filterMap List.head?).Pairwise fun first second =>
        column members first ≠ column members second

/-- A position beyond all others joins a slot with its column. First positions stay. -/
theorem Ordered.join {before after : List (List Nat)} {slot : List Nat}
    (ordered : Ordered members positions (before ++ slot :: after))
    (right : Slots members positions (before ++ slot :: after)) {position : Nat}
    (beyond : ∀ earlier ∈ positions, earlier < position)
    : Ordered members (positions ++ [position]) (before ++ (slot ++ [position]) :: after) := by
  have inside : slot ∈ before ++ slot :: after := by simp
  have head : (slot ++ [position]).head? = slot.head? :=
    List.head?_append_of_ne_nil slot (right.inhabited slot inside)
  have heads : (before ++ (slot ++ [position]) :: after).filterMap List.head?
      = (before ++ slot :: after).filterMap List.head? := by
    simp only [List.filterMap_append, List.filterMap_cons, head]
  refine ⟨?_, ?_, heads ▸ ordered.firsts, heads ▸ ordered.separate⟩
  · have moved : ((slot ++ [position]) ++ after.flatten).Perm
        ((slot ++ after.flatten) ++ [position]) := by
      rw [List.append_assoc, List.append_assoc]
      exact List.perm_append_comm.append_left slot
    have whole := ordered.perm.append_right [position]
    rw [List.flatten_append, List.flatten_cons, List.append_assoc] at whole
    rw [List.flatten_append, List.flatten_cons]
    exact (moved.append_left _).trans whole
  · have others := ordered.ascending
    rw [List.forall_mem_append, List.forall_mem_cons] at others ⊢
    refine ⟨others.1, List.pairwise_append.mpr ⟨others.2.1, List.pairwise_singleton _ _, ?_⟩,
      others.2.2⟩
    intro earlier member other last
    rw [List.mem_singleton.mp last]
    exact beyond earlier ((right.covers earlier).mpr ⟨slot, inside, member⟩)

/-- A position beyond all others whose column no slot has gets a slot of its own. -/
theorem Ordered.extend (ordered : Ordered members positions slots)
    (right : Slots members positions slots) {position : Nat}
    (beyond : ∀ earlier ∈ positions, earlier < position)
    (unfed : ∀ slot ∈ slots, feeds members position slot = false)
    : Ordered members (positions ++ [position]) (slots ++ [[position]]) := by
  have heads : (slots ++ [[position]]).filterMap List.head?
      = slots.filterMap List.head? ++ [position] := by
    rw [List.filterMap_append]
    rfl
  have earlier : ∀ first ∈ slots.filterMap List.head?,
      first < position ∧ column members first ≠ column members position := by
    intro first member
    obtain ⟨slot, inside, head⟩ := List.mem_filterMap.mp member
    obtain ⟨rest, rfl⟩ := List.head?_eq_some_iff.mp head
    refine ⟨beyond first ((right.covers first).mpr ⟨_, inside, List.mem_cons_self⟩), ?_⟩
    simpa [feeds] using unfed _ inside
  refine ⟨?_, ?_, ?_, ?_⟩
  · rw [List.flatten_append]
    exact ordered.perm.append_right [position]
  · exact List.forall_mem_append.mpr ⟨ordered.ascending, by simp⟩
  · rw [heads, List.pairwise_append]
    refine ⟨ordered.firsts, List.pairwise_singleton _ _, ?_⟩
    exact fun first member => List.forall_mem_singleton.mpr (earlier first member).1
  · rw [heads, List.pairwise_append]
    refine ⟨ordered.separate, List.pairwise_singleton _ _, ?_⟩
    exact fun first member => List.forall_mem_singleton.mpr (earlier first member).2

/-- Assigning ascending positions keeps the slots in order, by induction on the positions. -/
theorem Ordered.foldl (ordered : Ordered members positions slots)
    (right : Slots members positions slots) {added : List Nat}
    (increasing : (positions ++ added).Pairwise (· < ·))
    : Ordered members (positions ++ added) (added.foldl (assign members) slots) := by
  induction added generalizing positions slots with
  | nil => simpa using ordered
  | cons position rest ih =>
      have beyond : ∀ earlier ∈ positions, earlier < position := fun earlier member =>
        (List.pairwise_append.mp increasing).2.2 earlier member position List.mem_cons_self
      have next : Ordered members (positions ++ [position]) (assign members slots position) := by
        obtain ⟨before, slot, after, rfl, _, result⟩ | ⟨unfed, result⟩ :=
          assign_cases members slots position
        · exact result ▸ ordered.join right beyond
        · exact result ▸ ordered.extend right beyond unfed
      simpa using ih next (right.assign position) (by simpa using increasing)

variable {id : ClusterId} {signature : Signature} {collected : List Member}

theorem ascending_parameters_close (id : ClusterId) (signature : Signature)
    (collected : List Member)
    : (close id signature collected).parameters.Pairwise (· < ·) :=
  (List.pairwise_lt_range.sublist List.filter_sublist).sublist List.filter_sublist

theorem ordered_close (id : ClusterId) (signature : Signature) (collected : List Member)
    : Ordered (close id signature collected).members (close id signature collected).parameters
        (close id signature collected).arguments := by
  have start : Ordered (close id signature collected).members [] [] :=
    ⟨.refl _, nofun, .nil, .nil⟩
  exact start.foldl (slots_nil _) (ascending_parameters_close id signature collected)

/-- Positions of different slots have different columns. -/
theorem Ordered.column_ne (ordered : Ordered members positions slots)
    (right : Slots members positions slots)
    : slots.Pairwise fun slot later =>
        ∀ position ∈ slot, ∀ other ∈ later, column members position ≠ column members other := by
  refine (List.pairwise_filterMap.mp ordered.separate).imp_of_mem ?_
  intro slot later member laterMember apart position fed other otherFed equal
  obtain ⟨first, rest, rfl⟩ := List.exists_cons_of_ne_nil (right.inhabited slot member)
  obtain ⟨second, more, rfl⟩ := List.exists_cons_of_ne_nil (right.inhabited later laterMember)
  refine apart first rfl second rfl ?_
  calc column members first
      = column members position := right.uniform _ member _ List.mem_cons_self _ fed
    _ = column members other := equal
    _ = column members second := right.uniform _ laterMember _ otherFed _ List.mem_cons_self

-----------------------------------------------------------------------------------------
-- Parameters and arguments
-----------------------------------------------------------------------------------------

theorem varies_column_iff {position : Nat}
    : varies (column members position) = true
      ↔ ∃ one ∈ members,
          ∃ other ∈ members, one.formula[position]? ≠ other.formula[position]? := by
  constructor
  · intro differs
    by_contra same
    push Not at same
    cases members with
    | nil => nomatch differs
    | cons first rest =>
        obtain ⟨_, found, different⟩ := List.any_eq_true.mp differs
        obtain ⟨other, member, rfl⟩ := List.mem_map.mp found
        refine absurd ?_ (bne_iff_ne.mp different)
        exact same other (List.mem_cons_of_mem _ member) first List.mem_cons_self
  · intro differ
    obtain ⟨one, member, other, otherMember, different⟩ := differ
    by_contra constant
    exact different (eq_of_not_varies (Bool.eq_false_of_not_eq_true constant) member otherMember)

theorem column_close_eq_iff {position other : Nat}
    : column (close id signature collected).members position
        = column (close id signature collected).members other
      ↔ ∀ member ∈ collected, member.formula[position]? = member.formula[other]? := by
  simp only [column, List.map_inj_left, mem_members_close]

/-- Parameters share a slot exactly if they have one column. -/
theorem shared_close_iff {first second : Nat}
    (parameter : first ∈ (close id signature collected).parameters)
    (otherParameter : second ∈ (close id signature collected).parameters)
    : (∃ slot ∈ (close id signature collected).arguments, first ∈ slot ∧ second ∈ slot)
      ↔ ∀ member ∈ collected, member.formula[first]? = member.formula[second]? := by
  have slots := slots_close id signature collected
  rw [← column_close_eq_iff]
  constructor
  · intro shared
    obtain ⟨slot, member, fed, otherFed⟩ := shared
    exact slots.uniform slot member first fed second otherFed
  · intro equal
    obtain ⟨slot, member, fed⟩ := (slots.covers first).mp parameter
    obtain ⟨other, otherMember, otherFed⟩ := (slots.covers second).mp otherParameter
    have symmetric : Std.Symm fun slot later : List Nat =>
        ∀ position ∈ slot, ∀ other ∈ later,
          column (close id signature collected).members position
          ≠ column (close id signature collected).members other :=
      ⟨fun _ _ apart position fed other otherFed => (apart other otherFed position fed).symm⟩
    have apart := (ordered_close id signature collected).column_ne slots
    have same : slot = other := by
      by_contra different
      exact apart.forall member otherMember different first fed second otherFed equal
    exact ⟨slot, member, fed, same ▸ otherFed⟩

/-- A position is fed by one slot, which is the one that its argument names. -/
theorem findIdx?_arguments_eq_some_iff {position place : Nat}
    : ((close id signature collected).arguments.findIdx? fun slot => slot.contains position)
        = some place
      ↔ ∃ slot, (close id signature collected).arguments[place]? = some slot ∧ position ∈ slot := by
  have apart := List.pairwise_iff_getElem.mp
    ((ordered_close id signature collected).column_ne (slots_close id signature collected))
  rw [List.findIdx?_eq_some_iff_getElem]
  constructor
  · intro found
    obtain ⟨bound, fed, _⟩ := found
    exact ⟨_, List.getElem?_eq_getElem bound, List.contains_iff_mem.mp fed⟩
  · intro found
    obtain ⟨slot, here, fed⟩ := found
    obtain ⟨bound, rfl⟩ := List.getElem?_eq_some_iff.mp here
    refine ⟨bound, List.contains_iff_mem.mpr fed, ?_⟩
    intro earlier less again
    exact apart earlier place (Nat.lt_trans less bound) bound less position
      (List.contains_iff_mem.mp again) position fed rfl

/-- The prototype has an argument exactly at the positions that its slot feeds, if there are few
enough slots to tell them apart and no member has an argument of its own.
-/
theorem getElem?_prototype_eq_argument_iff (nonempty : collected ≠ [])
    (uniform : Uniform signature collected)
    (noArgument : ∀ member ∈ collected, ∀ place, .argument place ∉ member.formula)
    (narrow : (close id signature collected).arity < 65536) {position : Nat} {place : UInt16}
    : (close id signature collected).prototype[position]? = some (.argument place)
      ↔ ∃ slot,
          (close id signature collected).arguments[place.toNat]? = some slot
          ∧ position ∈ slot := by
  obtain ⟨first, inside, prototype⟩ := prototype_close id signature nonempty
  rw [← findIdx?_arguments_eq_some_iff, prototype, withArguments, List.getElem?_mapIdx]
  constructor
  · intro argument
    obtain ⟨instruction, here, replaced⟩ := Option.map_eq_some_iff.mp argument
    split at replaced
    · rename_i number found
      have bound : number < 65536 := by
        obtain ⟨bound, _⟩ := List.findIdx?_eq_some_iff_getElem.mp found
        exact Nat.lt_trans bound narrow
      rw [found, ← Instruction.argument.inj replaced, UInt16.toNat_ofNat_of_lt' bound]
    · exact absurd (replaced ▸ List.mem_of_getElem? here) (noArgument first inside place)
  · intro found
    obtain ⟨slot, slotHere, fed⟩ := findIdx?_arguments_eq_some_iff.mp found
    obtain ⟨here, _⟩ := operand_eq uniform inside (List.mem_of_getElem? slotHere) fed
    simp only [here, found, Option.map_some, UInt16.ofNat_toNat]

-----------------------------------------------------------------------------------------
-- The prototype and its rows
-----------------------------------------------------------------------------------------

theorem instantiate_of_ne_argument (row : List Instruction) {instruction : Instruction}
    (plain : ∀ place, instruction ≠ .argument place)
    : instruction.instantiate row = instruction := by
  cases instruction with
  | argument place => exact absurd rfl (plain place)
  | _ => rfl

/-- A body that abstracts a formula with a row gives the formula back for that row, by induction on
the formula.
-/
theorem instantiate_of_abstracts {row : List Instruction} {formula body : Formula}
    (abstracts : List.Forall₂ (Abstracts row) formula body)
    (plain : ∀ instruction ∈ formula, ∀ place, instruction ≠ .argument place)
    (narrow : row.length < 65536)
    : body.instantiate row = formula := by
  induction abstracts with
  | nil => rfl
  | cons head _ ih =>
      obtain ⟨first, later⟩ := List.forall_mem_cons.mp plain
      rw [Formula.instantiate, List.map_cons, List.cons.injEq]
      refine ⟨?_, ih later⟩
      rcases head with rfl | ⟨place, rfl, here⟩
      · exact instantiate_of_ne_argument row first
      · have bound := (List.getElem?_eq_some_iff.mp here).1
        rw [Instruction.instantiate, UInt16.toNat_ofNat_of_lt' (Nat.lt_trans bound narrow), here,
          Option.getD_some]

/-- A parameter of a body that gives back two members which differ is an argument, and its place in
the row of every member holds what the member has there.
-/
theorem exists_argument {body : Formula} {rows : Member → List Instruction}
    (given : ∀ member ∈ members, body.instantiate (rows member) = member.formula)
    (plain : ∀ member ∈ members, ∀ place, .argument place ∉ member.formula) {position : Nat}
    (differs : varies (column members position) = true)
    : ∃ place : UInt16,
        body[position]? = some (.argument place)
        ∧ ∀ member ∈ members, member.formula[position]? = (rows member)[place.toNat]? := by
  obtain ⟨one, inside, other, otherInside, different⟩ := varies_column_iff.mp differs
  have read : ∀ member ∈ members, member.formula[position]?
      = body[position]?.map (Instruction.instantiate (rows member)) := by
    intro member memberInside
    rw [← List.getElem?_map]
    exact congrArg (·[position]?) (given member memberInside).symm
  rw [read one inside, read other otherInside] at different
  cases here : body[position]? with
  | none => simp [here] at different
  | some instruction =>
      cases instruction with
      | argument place =>
          refine ⟨place, rfl, ?_⟩
          intro member memberInside
          have found := read member memberInside
          rw [here, Option.map_some, Instruction.instantiate] at found
          cases entry : (rows member)[place.toNat]? with
          | none =>
              rw [entry, Option.getD_none] at found
              exact absurd (List.mem_of_getElem? found) (plain member memberInside place)
          | some value => rw [found, entry, Option.getD_some]
      | _ => simp [here, Instruction.instantiate] at different

/-- The place of such an argument lies inside the longest row. -/
theorem exists_place_lt {body : Formula} {rows : Member → List Instruction} {count : Nat}
    (given : ∀ member ∈ collected,
      (rows member).length ≤ count ∧ body.instantiate (rows member) = member.formula)
    (plain : ∀ member ∈ collected, ∀ place, .argument place ∉ member.formula) {position : Nat}
    (parameter : position ∈ (close id signature collected).parameters)
    : ∃ place < count,
        ∀ member ∈ collected, member.formula[position]? = (rows member)[place]? := by
  have differs := (mem_parameters_close.mp parameter).2
  obtain ⟨place, _, read⟩ := exists_argument
    (fun member inside => (given member (mem_members_close.mp inside)).2)
    (fun member inside => plain member (mem_members_close.mp inside)) differs
  have readAll := fun member inside => read member (mem_members_close.mpr inside)
  refine ⟨place.toNat, ?_, readAll⟩
  -- If no row reached that far, no member would have anything at the position.
  by_contra beyond
  have nothing : ∀ member ∈ collected, member.formula[position]? = none := by
    intro member inside
    rw [readAll member inside, List.getElem?_eq_none_iff]
    exact Nat.le_trans (given member inside).1 (Nat.le_of_not_lt beyond)
  obtain ⟨one, inside, other, otherInside, different⟩ := varies_column_iff.mp differs
  refine different ?_
  rw [nothing one (mem_members_close.mp inside), nothing other (mem_members_close.mp otherInside)]

/-- No body gives back all members with fewer slots. The first positions of the slots have different
columns, so the body needs different arguments there.
-/
theorem arity_close_le {body : Formula} {rows : Member → List Instruction} {count : Nat}
    (given : ∀ member ∈ collected,
      (rows member).length ≤ count ∧ body.instantiate (rows member) = member.formula)
    (plain : ∀ member ∈ collected, ∀ place, .argument place ∉ member.formula)
    : (close id signature collected).arity ≤ count := by
  have slots := slots_close id signature collected
  let firsts := (close id signature collected).arguments.filterMap List.head?
  have length : firsts.length = (close id signature collected).arity := by
    rw [arity, List.filterMap_length_eq_length]
    exact fun slot member => List.isSome_head?.mpr (slots.inhabited slot member)
  have named : ∀ position, ∃ place, position ∈ firsts → place < count
      ∧ ∀ member ∈ collected, member.formula[position]? = (rows member)[place]? := by
    intro position
    by_cases known : position ∈ firsts
    · obtain ⟨slot, member, head⟩ := List.mem_filterMap.mp known
      have parameter := (slots.covers position).mpr ⟨slot, member, List.mem_of_head? head⟩
      obtain ⟨place, bound, read⟩ := exists_place_lt given plain parameter
      exact ⟨place, fun _ => ⟨bound, read⟩⟩
    · exact ⟨0, fun first => absurd first known⟩
  choose place spec using named
  have distinct : (firsts.map place).Nodup := by
    refine List.pairwise_map.mpr ((ordered_close id signature collected).separate.imp_of_mem ?_)
    intro first second member secondMember apart same
    refine apart (column_close_eq_iff.mpr ?_)
    intro found inside
    rw [(spec first member).2 found inside, (spec second secondMember).2 found inside, same]
  have inside : firsts.map place ⊆ List.range count := by
    intro number member
    obtain ⟨position, first, rfl⟩ := List.mem_map.mp member
    exact List.mem_range.mpr (spec position first).1
  calc (close id signature collected).arity
      = (firsts.map place).length := by rw [List.length_map, length]
    _ ≤ (List.range count).length := (List.subperm_of_subset distinct inside).length_le
    _ = count := List.length_range

-----------------------------------------------------------------------------------------
-- Well-formed routines and calls
-----------------------------------------------------------------------------------------

/-- The prototype takes as many values at each position as any member. -/
theorem map_pops_prototype (id : ClusterId) (uniform : Uniform signature collected)
    {member : Member} (inside : member ∈ collected)
    : member.formula.map Instruction.pops
      = (close id signature collected).prototype.map Instruction.pops := by
  have pops : List.Forall₂
      (fun original replacement => original.pops = replacement.pops) member.formula
      (close id signature collected).prototype := by
    refine (abstracts_prototype id uniform inside).imp ?_
    intro original replacement abstracts
    obtain rfl | ⟨place, rfl, here⟩ := abstracts
    · rfl
    · have entry := mem_row_close id uniform inside (List.mem_of_getElem? here)
      exact Instruction.pops_of_isOperand entry.2
  exact List.forall₂_eq_eq_eq ▸ List.forall₂_map_left_iff.mpr (List.forall₂_map_right_iff.mpr pops)

/-- The call for a member leaves one value. -/
theorem isValid_call (id : ClusterId) (uniform : Uniform signature collected)
    (narrow : (close id signature collected).arity < 65536) {member : Member}
    (inside : member ∈ collected)
    : Formula.isValid ((close id signature collected).row member
        ++ [.routine id (UInt16.ofNat (close id signature collected).arity)]) = true := by
  have noOperands : ∀ instruction ∈ (close id signature collected).row member,
      instruction.pops = 0 := fun instruction entry =>
    Instruction.pops_of_isOperand (mem_row_close id uniform inside entry).2
  refine Formula.isValid_iff.mpr ⟨[()], Formula.leaves_append.mpr
    ⟨_, Formula.leaves_of_no_operands noOperands [], ?_⟩, Nat.le_refl 1⟩
  refine (Formula.leaves_cons_of_operands ?_).mpr (Formula.leaves_nil.mpr rfl)
  rw [List.length_map, row, List.length_map, Instruction.pops, UInt16.toNat_ofNat_of_lt' narrow,
    arity]

-----------------------------------------------------------------------------------------
-- The least abstraction
-----------------------------------------------------------------------------------------

/-- (LeastAbstraction signature members cluster) means that the cluster abstracts exactly the
operands in which the members differ, and with the fewest slots.
-/
structure LeastAbstraction (signature : Signature) (members : List Member) (cluster : Cluster)
    : Prop where
  kept : cluster.members.Perm members
  sorted : cluster.members.Pairwise fun first second => first.state ≤ second.state
  ascending : cluster.parameters.Pairwise (· < ·)
  mem_parameters_iff
    : ∀ position : Nat,
        position ∈ cluster.parameters
        ↔ signature[position]? = some Signature.placeholder
          ∧ ∃ one ∈ members,
              ∃ other ∈ members, one.formula[position]? ≠ other.formula[position]?
  partition : cluster.arguments.flatten.Perm cluster.parameters
  inhabited : ∀ slot ∈ cluster.arguments, slot ≠ []
  shared_iff
    : ∀ first ∈ cluster.parameters,
        ∀ second ∈ cluster.parameters,
          (∃ slot ∈ cluster.arguments, first ∈ slot ∧ second ∈ slot)
          ↔ ∀ member ∈ members, member.formula[first]? = member.formula[second]?
  slots_ascending : ∀ slot ∈ cluster.arguments, slot.Pairwise (· < ·)
  firsts_ascending : (cluster.arguments.filterMap List.head?).Pairwise (· < ·)
  argument_iff
    : ∀ (position : Nat) (place : UInt16),
        cluster.prototype[position]? = some (.argument place)
        ↔ ∃ slot, cluster.arguments[place.toNat]? = some slot ∧ position ∈ slot
  instantiates
    : ∀ member ∈ members, cluster.prototype.instantiate (cluster.row member) = member.formula
  fewest
    : ∀ (body : Formula) (rows : Member → List Instruction) (count : Nat),
        (∀ member ∈ members,
          (rows member).length ≤ count ∧ body.instantiate (rows member) = member.formula)
        → cluster.arity ≤ count
  valid
    : (∀ member ∈ members, member.formula.isValid = true)
      → cluster.prototype.isValid = true
        ∧ ∀ member ∈ members,
            ∃ call, cluster.callSite? member.state = some call ∧ call.isValid = true

/-- Closing a cluster of at least one member is the least abstraction of its members, in whatever
order they were collected.
-/
theorem close_leastAbstraction (id : ClusterId) (nonempty : collected ≠ [])
    (uniform : Uniform signature collected)
    (noArgument : ∀ member ∈ collected, ∀ place, .argument place ∉ member.formula)
    (narrow : (close id signature collected).arity < 65536)
    : LeastAbstraction signature collected (close id signature collected) where
  kept := List.mergeSort_perm _ _
  sorted := sorted_members_close id signature collected
  ascending := ascending_parameters_close id signature collected
  mem_parameters_iff position := by
    simp only [mem_parameters_close, varies_column_iff, mem_members_close]
  partition := (ordered_close id signature collected).perm
  inhabited := (slots_close id signature collected).inhabited
  shared_iff _ parameter _ otherParameter := shared_close_iff parameter otherParameter
  slots_ascending := (ordered_close id signature collected).ascending
  firsts_ascending := (ordered_close id signature collected).firsts
  argument_iff _ _ := getElem?_prototype_eq_argument_iff nonempty uniform noArgument narrow
  instantiates member inside := by
    refine instantiate_of_abstracts (abstracts_prototype id uniform inside) ?_ ?_
    · intro instruction used place same
      exact noArgument member inside place (same ▸ used)
    · rw [row, List.length_map]
      exact narrow
  fewest _ _ _ given := arity_close_le given noArgument
  valid validMembers := by
    constructor
    · obtain ⟨member, inside⟩ := List.exists_mem_of_ne_nil collected nonempty
      exact Formula.isValid_of_map_pops (map_pops_prototype id uniform inside)
        (validMembers member inside)
    · intro member inside
      have belongs : member.state ∈ (close id signature collected).states :=
        List.mem_map_of_mem (mem_members_close.mpr inside)
      obtain ⟨last, lastInside, _, call⟩ := exists_callSite? belongs
      exact ⟨_, call, isValid_call id uniform narrow (mem_members_close.mp lastInside)⟩

/-- A state that doubles a variable, scales it by a NaN and adds a zero of either sign. -/
def signedMember (state read : Nat) (negative : Bool) : Member where
  state := .ofIndex state
  formula :=
    [.var (.ofIndex read), .var (.ofIndex read), .operator .add, .number .nan,
      .operator .multiply, .number (.zero negative), .operator .add]

/-- Two such states, the later one first. -/
def signedMembers : List Member :=
  [signedMember 7 0 false, signedMember 3 1 true]

/-- The routine reads the variable twice from one slot and the zero from another one. The NaN is
part of its body.
-/
def signedCluster : Cluster where
  id := .ofIndex 4
  signature := [0, 0, 1, 0, 3, 0, 1]
  prototype :=
    [.argument 0, .argument 0, .operator .add, .number .nan, .operator .multiply, .argument 1,
      .operator .add]
  parameters := [0, 1, 5]
  arguments := [[0, 1], [5]]
  members := [signedMember 3 1 true, signedMember 7 0 false]

theorem uniform_signedMembers : Uniform signedCluster.signature signedMembers := by
  have length : ∀ member ∈ signedMembers, member.formula.length = 7 := by decide
  refine ⟨length, ?_, ?_⟩
  · intro member inside position instruction here found
    have checked : ∀ position < 7, signedCluster.signature[position]? = some Signature.placeholder
        → ∀ member ∈ signedMembers, member.formula[position]?.all Instruction.isOperand = true := by
      decide
    have bound := length member inside ▸ (List.getElem?_eq_some_iff.mp found).1
    have operand := checked position bound here member inside
    rwa [found] at operand
  · intro member inside other otherInside position structural
    have checked : ∀ position < 7, signedCluster.signature[position]? ≠ some Signature.placeholder
        → ∀ member ∈ signedMembers, ∀ other ∈ signedMembers,
          member.formula[position]? = other.formula[position]? := by
      decide
    by_cases bound : position < 7
    · exact checked position bound structural member inside other otherInside
    · rw [List.getElem?_eq_none (length member inside ▸ Nat.le_of_not_lt bound),
        List.getElem?_eq_none (length other otherInside ▸ Nat.le_of_not_lt bound)]

/-- Collected the other way round, the two members close to that routine. -/
theorem close_leastAbstraction_signed
    : close (.ofIndex 4) signedCluster.signature signedMembers = signedCluster
      ∧ LeastAbstraction signedCluster.signature signedMembers signedCluster := by
  have closed : close (.ofIndex 4) signedCluster.signature signedMembers = signedCluster := by
    cbv
  refine ⟨closed, ?_⟩
  have noArgument : ∀ member ∈ signedMembers, ∀ place, .argument place ∉ member.formula := by
    simp [signedMembers, signedMember]
  have nonempty : signedMembers ≠ [] := List.cons_ne_nil _ _
  have narrow : (close (.ofIndex 4) signedCluster.signature signedMembers).arity < 65536 := by
    rw [closed]
    decide
  have least := close_leastAbstraction (.ofIndex 4) nonempty uniform_signedMembers noArgument narrow
  rwa [closed] at least

end Cluster

end StepPlan
