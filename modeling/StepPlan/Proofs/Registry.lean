import Mathlib
import StepPlan.Proofs.Distinct
import StepPlan.Registry

/-! What a registry promises after any registrations. Names never repeat: a state gets the name that
was requested for it, or the first free one with a counter. The lookups describe the states: the
names in use, the first state of each key, and the variables written. Lookups that describe the same
states have the same contents, so rebuilding them changes nothing.
-/

namespace StepPlan

namespace Lookups

-----------------------------------------------------------------------------------------
-- Free names
-----------------------------------------------------------------------------------------

theorem numbered_inj {name : String} {first second : Nat}
    (same : numbered name first = numbered name second)
    : first = second := by
  have spelled := congrArg String.toList same
  simp only [numbered, String.toList_append, List.append_cancel_left_eq] at spelled
  have value := congrArg (fun digits => Nat.ofDigitChars 10 digits 0) spelled
  simpa [Nat.toString_eq_ofList_toDigits] using value

/-- A counter makes a name longer. -/
theorem numbered_ne (name : String) (counter : Nat) : numbered name counter ≠ name := by
  intro same
  have length := congrArg String.length same
  have mark : "_".length = 1 := rfl
  simp only [numbered, String.length_append, mark] at length
  omega

/-- (Named taken requested name) means that a state gets the name if some are taken: the requested
one unless it is taken, and otherwise the one with the least counter that is not. The counter never
exceeds the number of names taken.
-/
inductive Named (taken : List String) (requested : String) : String → Prop
  | asRequested (unused : requested ∉ taken) : Named taken requested requested
  | counted {counter : Nat} (used : requested ∈ taken) (positive : 1 ≤ counter)
    (bounded : counter ≤ taken.length) (unused : numbered requested counter ∉ taken)
    (least : ∀ smaller, 1 ≤ smaller → smaller < counter → numbered requested smaller ∈ taken)
    : Named taken requested (numbered requested counter)

theorem Named.not_mem {taken : List String} {requested name : String}
    (named : Named taken requested name)
    : name ∉ taken := by
  cases named with
  | asRequested unused => exact unused
  | counted _ _ _ unused _ => exact unused

/-- Which name a state gets does not depend on the order in which names were taken. -/
theorem Named.perm {taken others : List String} (same : taken.Perm others)
    {requested name : String} (named : Named taken requested name)
    : Named others requested name := by
  cases named with
  | asRequested unused => exact .asRequested (mt same.mem_iff.mpr unused)
  | counted used positive bounded unused least =>
      refine .counted (same.mem_iff.mp used) positive (same.length_eq ▸ bounded)
        (mt same.mem_iff.mpr unused) ?_
      intro smaller lower upper
      exact same.mem_iff.mp (least smaller lower upper)

/-- Where a name and its first numbered ones are all taken, there are more names than counters: they
all differ.
-/
theorem lt_length_of_taken {taken : List String} {name : String} (used : name ∈ taken)
    {count : Nat} (covered : ∀ counter ∈ List.range' 1 count, numbered name counter ∈ taken)
    : count < taken.length := by
  have distinct : (name :: (List.range' 1 count).map (numbered name)).Nodup := by
    refine List.nodup_cons.mpr ⟨?_, (List.nodup_range' 1).map fun _ _ => numbered_inj⟩
    intro member
    obtain ⟨counter, _, same⟩ := List.mem_map.mp member
    exact numbered_ne name counter same
  have inside : name :: (List.range' 1 count).map (numbered name) ⊆ taken := by
    refine List.cons_subset.mpr ⟨used, ?_⟩
    intro candidate member
    obtain ⟨counter, known, rfl⟩ := List.mem_map.mp member
    exact covered counter known
  have bound := (List.subperm_of_subset distinct inside).length_le
  simp only [List.length_cons, List.length_map, List.length_range'] at bound
  exact bound

/-- The search for a free name finds the right one. It cannot fail, because it tries more candidates
than there are names.
-/
theorem named_freeName (lookups : Lookups) (name : String)
    : Named lookups.names name (lookups.freeName name) := by
  unfold freeName
  split
  · rename_i used
    rw [List.find?_map]
    cases found : (List.range' 1 (lookups.names.length + 1)).find?
        ((fun candidate => decide (candidate ∉ lookups.names)) ∘ numbered name) with
    | none =>
        have more := lt_length_of_taken used fun counter known => by
          simpa using List.find?_eq_none.mp found counter known
        omega
    | some counter =>
        obtain ⟨unused, known, least⟩ := List.find?_range'_eq_some.mp found
        simp only [Function.comp_apply, decide_eq_true_eq] at unused
        have earlier : ∀ smaller, 1 ≤ smaller → smaller < counter
            → numbered name smaller ∈ lookups.names := by
          intro smaller lower upper
          simpa using least smaller lower upper
        have positive := (List.mem_range'_1.mp known).1
        have bounded : counter - 1 < lookups.names.length := by
          apply lt_length_of_taken used
          intro smaller member
          obtain ⟨lower, upper⟩ := List.mem_range'_1.mp member
          exact earlier smaller lower (by omega)
        exact .counted used positive (by omega) unused earlier
  · rename_i unused
    exact .asRequested unused

-----------------------------------------------------------------------------------------
-- Lookups that describe states
-----------------------------------------------------------------------------------------

/-- The lookups list, each once, the names of the states, their keys with the first state of each,
and the variables that they write.
-/
structure Describes (lookups : Lookups) (states : List State) : Prop where
  names_nodup : lookups.names.Nodup
  mem_names_iff : ∀ name, name ∈ lookups.names ↔ name ∈ states.map State.name
  keys_nodup : (lookups.governing.map Prod.fst).Nodup
  governing?_eq
    : ∀ key,
        lookups.governing? key
        = (states.findIdx? fun state => state.key = key).map Ident.ofIndex
  written_nodup : lookups.written.Nodup
  mem_written_iff
    : ∀ id, id ∈ lookups.written ↔ ∃ state ∈ states, state.target = .var id

theorem describes_empty : empty.Describes [] := by
  constructor <;> simp [empty, governing?]

theorem keys_govern_nodup {lookups : Lookups} (distinct : (lookups.governing.map Prod.fst).Nodup)
    (key : Key) (id : StateId)
    : ((lookups.govern key id).map Prod.fst).Nodup := by
  unfold govern
  split
  · exact distinct
  · rename_i missing
    rw [List.map_append, List.map_singleton, List.nodup_append_comm]
    refine List.nodup_cons.mpr ⟨?_, distinct⟩
    intro member
    obtain ⟨entry, entryMember, same⟩ := List.mem_map.mp member
    simpa [same] using List.lookup_eq_none_iff.mp missing entry entryMember

/-- A state governs its key only if no state did before, and no other key. -/
theorem lookup_govern (lookups : Lookups) (key : Key) (id : StateId) (other : Key)
    : (lookups.govern key id).lookup other
      = (lookups.governing? other).or (if key = other then some id else none) := by
  unfold govern
  split
  · rename_i found governs
    by_cases same : key = other
    · subst other
      simp only [governs, Option.some_or]
      exact governs
    · simp [same, governing?]
  · rw [List.lookup_append, List.lookup_cons]
    by_cases same : key = other
    · simp [same, governing?]
    · simp [beq_false_of_ne (Ne.symm same), same, governing?]

/-- Taking in a state at the end keeps the lookups true to the states. -/
theorem Describes.record {lookups : Lookups} {states : List State}
    (describes : lookups.Describes states) (state : State)
    : (lookups.record (.ofIndex states.length) state).Describes (states ++ [state]) where
  names_nodup := describes.names_nodup.insert
  mem_names_iff name := by
    simp [Lookups.record, List.mem_insert_iff, describes.mem_names_iff, or_comm]
  keys_nodup := keys_govern_nodup describes.keys_nodup _ _
  governing?_eq key := by
    refine (lookup_govern lookups state.key _ key).trans ?_
    rw [describes.governing?_eq, List.findIdx?_append, List.findIdx?_singleton]
    by_cases same : state.key = key
    · cases states.findIdx? fun state => state.key = key <;> simp [same]
    · simp [same]
  written_nodup := by
    unfold Lookups.record index write
    dsimp only
    split
    · exact describes.written_nodup.insert
    · exact describes.written_nodup
  mem_written_iff id := by
    simp only [Lookups.record, index, write, List.mem_append, List.mem_singleton, or_and_right,
      exists_or, exists_eq_left, ← describes.mem_written_iff]
    split
    · rename_i written target
      simp [List.mem_insert_iff, target, or_comm, eq_comm]
    · rename_i other
      simpa using fun target => (other id target).elim

/-- A key with the first state that has it. -/
def firstOf (states : List State) (key : Key) : Key × StateId :=
  (key, .ofIndex (states.findIdx fun state => state.key = key))

/-- The lookups of a list of states, each read off the states as they stand. -/
def ofStates (states : List State) : Lookups where
  names := (states.map State.name).eraseDups
  governing := (states.map State.key).eraseDups.map (firstOf states)
  written := (states.filterMap State.var?).eraseDups.reverse

/-- The lookups that are read off the states describe them. -/
theorem describes_ofStates (states : List State)
    : (ofStates states).Describes states where
  names_nodup := nodup_eraseDups _
  mem_names_iff name := List.mem_eraseDups
  keys_nodup := by
    simpa [ofStates, firstOf, Function.comp_def] using nodup_eraseDups (states.map State.key)
  governing?_eq key := by
    change List.lookup key ((states.map State.key).eraseDups.map fun key => (key, _)) = _
    cases found : states.findIdx? fun state => state.key = key with
    | none =>
        rw [Option.map_none, List.lookup_eq_none_iff]
        intro entry member
        obtain ⟨listed, listedMember, rfl⟩ := List.mem_map.mp member
        obtain ⟨state, stateMember, rfl⟩ := List.mem_map.mp (List.mem_eraseDups.mp listedMember)
        have differs : state.key ≠ key := by
          simpa using List.findIdx?_eq_none_iff.mp found state stateMember
        exact bne_iff_ne.mpr differs.symm
    | some position =>
        obtain ⟨known, first⟩ := List.findIdx?_eq_some_iff_findIdx_eq.mp found
        have holds := (List.findIdx?_eq_some_iff_getElem.mp found).2.1
        have listed : key ∈ (states.map State.key).eraseDups := by
          rw [List.mem_eraseDups]
          exact List.mem_map.mpr ⟨states[position], List.getElem_mem known, by simpa using holds⟩
        rw [List.lookup_graph _ listed, first, Option.map_some]
  written_nodup := List.nodup_reverse.mpr (nodup_eraseDups _)
  mem_written_iff id := by
    simp only [ofStates, List.mem_reverse, List.mem_eraseDups, List.mem_filterMap, State.var?]
    refine exists_congr fun state => and_congr_right fun _ => ?_
    split <;> simp_all

/-- An item behind others counts as a new one if it is not among them. -/
theorem eraseDups_concat {α : Type} [DecidableEq α] (items : List α) (item : α)
    : (items ++ [item]).eraseDups
      = if item ∈ items then items.eraseDups else items.eraseDups ++ [item] := by
  rw [List.eraseDups_append]
  by_cases member : item ∈ items <;> simp [member, List.removeAll, List.eraseDups_cons]

/-- The first state with a key stays the first when another state comes behind. -/
theorem firstOf_concat_of_mem {states : List State} {key : Key}
    (listed : key ∈ states.map State.key) (state : State)
    : firstOf (states ++ [state]) key = firstOf states key := by
  obtain ⟨other, member, rfl⟩ := List.mem_map.mp listed
  have known := List.findIdx_lt_length_of_exists (p := fun found : State => found.key = other.key)
    ⟨other, member, by simp⟩
  rw [firstOf, firstOf, List.findIdx_append, if_pos known]

/-- A state behind the others is the first with its key if none of them has it. -/
theorem firstOf_concat_of_not_mem {states : List State} {state : State}
    (fresh : state.key ∉ states.map State.key)
    : firstOf (states ++ [state]) state.key = (state.key, .ofIndex states.length) := by
  have none : ∀ other ∈ states, decide (other.key = state.key) = false := by
    intro other member
    exact decide_eq_false fun same => fresh (List.mem_map.mpr ⟨other, member, same⟩)
  rw [firstOf, List.findIdx_append, List.findIdx_eq_length.mpr none]
  simp

/-- A state behind the others governs its key if none of them has it. -/
theorem govern_ofStates (states : List State) (state : State)
    : (ofStates states).govern state.key (.ofIndex states.length)
      = (ofStates (states ++ [state])).governing := by
  have kept : (states.map State.key).eraseDups.map (firstOf (states ++ [state]))
      = (states.map State.key).eraseDups.map (firstOf states) :=
    List.map_congr_left fun key listed =>
      firstOf_concat_of_mem (List.mem_eraseDups.mp listed) state
  have free_iff
      : (ofStates states).governing? state.key = none ↔ state.key ∉ states.map State.key := by
    rw [(describes_ofStates states).governing?_eq, Option.map_eq_none_iff,
      List.findIdx?_eq_none_iff]
    simp
  have after : (ofStates (states ++ [state])).governing
      = (states.map State.key ++ [state.key]).eraseDups.map (firstOf (states ++ [state])) := by
    simp only [ofStates, List.map_append, List.map_singleton]
  rw [after, eraseDups_concat]
  unfold govern
  split
  · rename_i governs
    have member : state.key ∈ states.map State.key := by
      by_contra missing
      simp [free_iff.mpr missing] at governs
    rw [if_pos member, kept, ofStates]
  · rename_i free
    have fresh := free_iff.mp free
    rw [if_neg fresh, List.map_append, kept, List.map_singleton, firstOf_concat_of_not_mem fresh,
      ofStates]

/-- The variable that a state behind the others writes is new if none of them writes it. -/
theorem write_ofStates (states : List State) (state : State)
    : (ofStates states).write state.target = (ofStates (states ++ [state])).written := by
  simp only [ofStates, List.filterMap_append, write]
  split
  · rename_i id target
    have read : [state].filterMap State.var? = [id] := by simp [State.var?, target]
    rw [read, eraseDups_concat, List.insert]
    by_cases member : id ∈ states.filterMap State.var? <;> simp [member]
  · rename_i other
    have read : [state].filterMap State.var? = [] := by
      cases target : state.target <;> simp_all [State.var?]
    rw [read, List.append_nil]

/-- Going through the states gives what is read off them, by induction on the states from the
last.
-/
theorem indexAll_clear (lookups : Lookups) (states : List State)
    : lookups.clear.indexAll states = { ofStates states with names := lookups.names } := by
  induction states using List.reverseRecOn with
  | nil => rfl
  | append_singleton states state ih =>
      rw [indexAll, List.zipIdx_append, List.foldl_append]
      change (indexAll lookups.clear states).index (.ofIndex (0 + states.length)) state = _
      rw [ih, index, Nat.zero_add]
      refine congrArg₂ (Lookups.mk lookups.names) ?_ ?_
      · exact govern_ofStates states state
      · exact write_ofStates states state

/-- The two lookups list the same, in whatever order. -/
structure Same (first second : Lookups) : Prop where
  names : first.names.Perm second.names
  governing : first.governing.Perm second.governing
  written : first.written.Perm second.written

/-- With distinct keys an entry is in the list exactly if it is found under its key, by induction on
the list.
-/
theorem mem_iff_lookup {entries : List (Key × StateId)} (distinct : (entries.map Prod.fst).Nodup)
    (entry : Key × StateId)
    : entry ∈ entries ↔ entries.lookup entry.1 = some entry.2 := by
  induction entries with
  | nil => simp
  | cons first rest ih =>
      obtain ⟨fresh, later⟩ := List.nodup_cons.mp distinct
      rw [List.mem_cons, ih later, List.lookup_cons]
      by_cases same : entry.1 = first.1
      · have missing : rest.lookup first.1 = none := by
          rw [List.lookup_eq_none_iff]
          intro other member
          exact bne_iff_ne.mpr fun equal => fresh (List.mem_map.mpr ⟨other, member, equal.symm⟩)
        simp [missing, same, Prod.ext_iff, eq_comm]
      · simp [beq_false_of_ne same, Prod.ext_iff, same]

/-- Lookups that describe the same states have the same contents. -/
theorem Describes.same {first second : Lookups} {states : List State}
    (describes : first.Describes states) (other : second.Describes states)
    : first.Same second where
  names := by
    refine (List.perm_ext_iff_of_nodup describes.names_nodup other.names_nodup).mpr fun name => ?_
    rw [describes.mem_names_iff, other.mem_names_iff]
  governing := by
    have distinct := describes.keys_nodup.of_map
    have otherDistinct := other.keys_nodup.of_map
    refine (List.perm_ext_iff_of_nodup distinct otherDistinct).mpr fun entry => ?_
    rw [mem_iff_lookup describes.keys_nodup, mem_iff_lookup other.keys_nodup]
    have equal := (describes.governing?_eq entry.1).trans (other.governing?_eq entry.1).symm
    exact Eq.congr_left equal
  written := by
    refine (List.perm_ext_iff_of_nodup describes.written_nodup other.written_nodup).mpr fun id => ?_
    rw [describes.mem_written_iff, other.mem_written_iff]

end Lookups

-----------------------------------------------------------------------------------------
-- Registrations in a row
-----------------------------------------------------------------------------------------

namespace Registry

/-- The registry after the requested states were registered, one after the other. -/
def ofRequests (requests : List State) : Registry :=
  requests.foldl (fun registry request => (registry.add request).2) .empty

/-- (registry.Grants requests) means that every request has its state, which differs from it at most
in the name, and the name is the right one given the names of the states before.
-/
structure Grants (registry : Registry) (requests : List State) : Prop where
  length : registry.states.length = requests.length
  granted
    : ∀ (position : Nat) (request state : State),
        requests[position]? = some request
        → registry.states[position]? = some state
        → state = { request with name := state.name }
          ∧ Lookups.Named ((registry.states.take position).map State.name) request.name
              state.name

/-- What registering a state keeps: requests are granted, names are distinct, and the lookups
describe the states.
-/
structure Orderly (registry : Registry) (requests : List State) : Prop where
  grants : registry.Grants requests
  distinct : (registry.states.map State.name).Nodup
  describes : registry.lookups.Describes registry.states

variable {registry : Registry} {requests : List State}

theorem orderly_empty : empty.Orderly [] := by
  refine ⟨⟨rfl, ?_⟩, List.nodup_nil, Lookups.describes_empty⟩
  intro position request state requestAt
  simp at requestAt

/-- The name of the next state is the right one given the names of all states before. -/
theorem Orderly.named (orderly : registry.Orderly requests) (requested : String)
    : Lookups.Named (registry.states.map State.name) requested
        (registry.lookups.freeName requested) := by
  have same : registry.lookups.names.Perm (registry.states.map State.name) :=
    (List.perm_ext_iff_of_nodup orderly.describes.names_nodup orderly.distinct).mpr
      orderly.describes.mem_names_iff
  exact (registry.lookups.named_freeName requested).perm same

/-- One more request is granted, by a state behind all others. -/
theorem Grants.append (grants : registry.Grants requests) {request state : State}
    (same : state = { request with name := state.name })
    (named : Lookups.Named (registry.states.map State.name) request.name state.name)
    (lookups : Lookups)
    : (⟨registry.states ++ [state], lookups⟩ : Registry).Grants (requests ++ [request]) := by
  refine ⟨by simp [grants.length], ?_⟩
  intro position asked found askedAt foundAt
  dsimp only at foundAt ⊢
  rcases Nat.lt_or_ge position requests.length with earlier | late
  · have inside : position < registry.states.length := grants.length ▸ earlier
    rw [List.getElem?_append_left earlier] at askedAt
    rw [List.getElem?_append_left inside] at foundAt
    rw [List.take_append_of_le_length (Nat.le_of_lt inside)]
    exact grants.granted position asked found askedAt foundAt
  · have last : position = requests.length := by
      have bound := (List.getElem?_eq_some_iff.mp askedAt).1
      rw [List.length_append, List.length_singleton] at bound
      omega
    subst position
    rw [List.getElem?_concat_length] at askedAt
    rw [← grants.length, List.getElem?_concat_length] at foundAt
    cases askedAt
    cases foundAt
    rw [← grants.length, List.take_left]
    exact ⟨same, named⟩

/-- Registering a state keeps the registry orderly. -/
theorem Orderly.add (orderly : registry.Orderly requests) (request : State)
    : (registry.add request).2.Orderly (requests ++ [request]) := by
  have named := orderly.named request.name
  refine ⟨orderly.grants.append rfl named _, ?_, orderly.describes.record _⟩
  simp only [Registry.add, List.map_append, List.map_singleton]
  rw [List.nodup_append_comm]
  exact List.nodup_cons.mpr ⟨named.not_mem, orderly.distinct⟩

/-- So do all requests in a row, by induction on those to come. -/
theorem Orderly.foldl (orderly : registry.Orderly requests) (coming : List State)
    : (coming.foldl (fun registry request => (registry.add request).2) registry).Orderly
        (requests ++ coming) := by
  induction coming generalizing registry requests with
  | nil => simpa using orderly
  | cons request rest ih => simpa using ih (orderly.add request)

theorem orderly_ofRequests (requests : List State) : (ofRequests requests).Orderly requests := by
  simpa [ofRequests] using orderly_empty.foldl requests

/-- The first state with a key has the least number of all states with the key. Positions have to be
below `2 ^ 32`, since states are named by numbers of 32 bits.
-/
theorem isLeast_of_findIdx? (few : registry.states.length ≤ 0x100000000) {key : Key}
    {position : Nat}
    (found : (registry.states.findIdx? fun state => state.key = key) = some position)
    : IsLeast {id | ∃ state, registry.get? id = some state ∧ state.key = key}
        (.ofIndex position) := by
  obtain ⟨known, holds, before⟩ := List.findIdx?_eq_some_iff_getElem.mp found
  have index : (Ident.ofIndex position : StateId).index = position :=
    Ident.index_ofIndex (Nat.lt_of_lt_of_le known few)
  refine ⟨⟨registry.states[position], ?_, of_decide_eq_true holds⟩, ?_⟩
  · rw [get?, index]
    exact List.getElem?_eq_getElem known
  · intro other member
    obtain ⟨state, stateAt, same⟩ := member
    obtain ⟨otherKnown, rfl⟩ := List.getElem?_eq_some_iff.mp stateAt
    apply Nat.le_of_not_lt
    intro lower
    exact before other.index (index ▸ lower) (decide_eq_true same)

/-- The state that governs a key is the least that has it. -/
theorem Orderly.governing?_eq_some_iff (orderly : registry.Orderly requests)
    (few : registry.states.length ≤ 0x100000000) (key : Key) (id : StateId)
    : registry.governing? key = some id
      ↔ IsLeast {other | ∃ state, registry.get? other = some state ∧ state.key = key} id := by
  have governs := orderly.describes.governing?_eq key
  constructor
  · intro found
    obtain ⟨position, positionAt, rfl⟩ := Option.map_eq_some_iff.mp (governs.symm.trans found)
    exact isLeast_of_findIdx? few positionAt
  · intro least
    obtain ⟨state, stateAt, same⟩ := least.1
    cases found : registry.states.findIdx? fun state => state.key = key with
    | none =>
        have differs := List.findIdx?_eq_none_iff.mp found state (List.mem_of_getElem? stateAt)
        exact absurd same (of_decide_eq_false differs)
    | some position =>
        have other := isLeast_of_findIdx? few found
        have equal : Ident.ofIndex position = id :=
          Ident.index_inj.mp (Nat.le_antisymm (other.2 least.1) (least.2 other.1))
        rw [Registry.governing?, governs, found, Option.map_some, equal]

/-- Rebuilt lookups are those that are read off the states. -/
theorem lookups_rebuild (registry : Registry)
    : registry.rebuild.lookups = .ofStates registry.states :=
  Lookups.indexAll_clear _ registry.states

/-- What a registry promises after requests: they are granted under distinct names, a key is
governed by the first state that has it, a variable is written if a state targets it, and lookups
that are rebuilt from whatever they were have the same contents.
-/
structure Faithful (registry : Registry) (requests : List State) : Prop where
  grants : registry.Grants requests
  distinct : (registry.states.map State.name).Nodup
  governing?_eq_some_iff
    : ∀ key id,
        registry.governing? key = some id
        ↔ IsLeast {other | ∃ state, registry.get? other = some state ∧ state.key = key} id
  governing?_eq_none_iff
    : ∀ key, registry.governing? key = none ↔ ∀ state ∈ registry.states, state.key ≠ key
  writes_iff
    : ∀ id, registry.writes id = true ↔ ∃ state ∈ registry.states, state.target = .var id
  rebuilds
    : ∀ lookups,
        (⟨registry.states, lookups⟩ : Registry).rebuild.states = registry.states
        ∧ (⟨registry.states, lookups⟩ : Registry).rebuild.lookups.Same registry.lookups

/-- Whatever is requested, the registry keeps its promises. -/
theorem faithful_ofRequests {requests : List State} (few : requests.length < 2 ^ 31)
    : (ofRequests requests).Faithful requests := by
  have orderly := orderly_ofRequests requests
  have bound : (ofRequests requests).states.length ≤ 0x100000000 := by
    rw [orderly.grants.length]
    omega
  refine ⟨orderly.grants, orderly.distinct, orderly.governing?_eq_some_iff bound, ?_, ?_, ?_⟩
  · intro key
    rw [governing?, orderly.describes.governing?_eq, Option.map_eq_none_iff,
      List.findIdx?_eq_none_iff]
    simp only [decide_eq_false_iff_not, ne_eq]
  · intro id
    rw [writes, List.contains_iff_mem]
    exact orderly.describes.mem_written_iff id
  · intro lookups
    refine ⟨rfl, ?_⟩
    rw [lookups_rebuild]
    exact (Lookups.describes_ofStates _).same orderly.describes

/-- Requests that ask for names in use, and one that asks for a name with a counter. -/
def clashingRequests : List State :=
  [⟨.synthetic 0, .auxiliary, [], "x"⟩, ⟨.var (.ofIndex 1), .direct, [], "x"⟩,
    ⟨.var (.ofIndex 1), .integrated, [], "x_1"⟩, ⟨.synthetic 1, .auxiliary, [], "x"⟩]

/-- A name with a counter may be taken by then, whether it was requested or not. -/
theorem faithful_ofRequests_clashing
    : ((ofRequests clashingRequests).states.map State.name) = ["x", "x_1", "x_1_1", "x_2"]
      ∧ (ofRequests clashingRequests).governing? (.value (.var (.ofIndex 1))) = some (.ofIndex 1)
      ∧ (ofRequests clashingRequests).Faithful clashingRequests := by
  exact ⟨by decide +kernel, by decide +kernel, faithful_ofRequests (by decide)⟩

end Registry

end StepPlan
