import Mathlib
import StepPlan.Proofs.Cluster.Mining
import StepPlan.Proofs.Formula.Expansion
import StepPlan.Proofs.Formula.Folding
import StepPlan.Proofs.Session.Admission

/-! Clustering preserves meaning. A call site stacks the operands of a state and calls the routine
of its cluster, whose body is the formula of the state with arguments in the place of those
operands. The value of the call is therefore that of the expanded or folded formula, and so that of
the formula that was registered.
-/

namespace StepPlan

namespace Cluster

/-- The routines that are known where only the prototype of one cluster is. -/
def routines (cluster : Cluster) (id : ClusterId) : Option Formula :=
  if id = cluster.id then some cluster.prototype else none

/-- A state of a cluster has a member, and its call site is the call for that member. -/
theorem exists_callSite? {cluster : Cluster} {state : StateId} (belongs : state ∈ cluster.states)
    : ∃ member ∈ cluster.members, member.state = state
      ∧ cluster.callSite? state
        = some (cluster.row member ++ [.routine cluster.id (UInt16.ofNat cluster.arity)]) := by
  obtain ⟨member, inside, rfl⟩ := List.mem_map.mp belongs
  have nonempty : (cluster.members.filter fun other => other.state = member.state) ≠ [] :=
    List.ne_nil_of_mem (List.mem_filter.mpr ⟨inside, by simp⟩)
  have last := List.mem_filter.mp (List.getLast_mem nonempty)
  refine ⟨_, last.1, by simpa using last.2, ?_⟩
  rw [callSite?, member?, List.getLast?_eq_some_getLast nonempty, Option.map_some]

/-- If the arguments have the values of a row, a prototype stands for the formula it abstracts with
that row.
-/
theorem standsFor_of_abstracts {program : Program} (environment : Environment)
    {row : List Instruction} {formula prototype : Formula}
    (abstracts : List.Forall₂ (Abstracts row) formula prototype)
    (direct : ∀ instruction ∈ formula, program.Direct instruction)
    (noOperands : ∀ instruction ∈ row, instruction.pops = 0) (narrow : row.length < 65536)
    : List.Forall₂ (program.StandsFor environment (row.map (environment.combine · [])))
      formula prototype := by
  refine ((List.forall₂_and_left _ _).mpr ⟨direct, abstracts⟩).imp ?_
  rintro original replacement ⟨originalDirect, rfl | ⟨slot, rfl, here⟩⟩
  · exact Or.inl ⟨rfl, originalDirect⟩
  · obtain ⟨bound, _⟩ := List.getElem?_eq_some_iff.mp here
    refine Or.inr ⟨_, rfl, noOperands original (List.mem_of_getElem? here), ?_⟩
    rw [UInt16.toNat_ofNat_of_lt' (Nat.lt_trans bound narrow), List.getElem?_map, here,
      Option.map_some]

/-- The call for a member has the value of the member's formula, if the prototype abstracts the
formula and its row consists of operands.
-/
theorem evaluates_call {program : Program} {environment : Environment} {cluster : Cluster}
    {member : Member} {value : Binary64}
    (abstracts : List.Forall₂ (Abstracts (cluster.row member)) member.formula cluster.prototype)
    (entries : ∀ instruction ∈ cluster.row member,
      instruction ∈ member.formula ∧ instruction.isOperand = true)
    (direct : ∀ instruction ∈ member.formula, program.Direct instruction)
    (narrow : cluster.arity < 65536)
    (run : member.formula.Leaves environment.combine [] [value])
    : program.Evaluates environment cluster.routines
      (cluster.row member ++ [.routine cluster.id (UInt16.ofNat cluster.arity)]) value := by
  have rowLength : (cluster.row member).length = cluster.arity := List.length_map _
  have noOperands : ∀ instruction ∈ cluster.row member, instruction.pops = 0 :=
    fun instruction entry => Instruction.pops_of_isOperand (entries instruction entry).2
  have pushed : program.Runs environment cluster.routines [] [] (cluster.row member)
      (((cluster.row member).map (environment.combine · [])).reverse ++ []) :=
    Program.runs_of_direct
      (fun instruction entry => direct instruction (entries instruction entry).1)
      (Formula.leaves_of_no_operands noOperands []) cluster.routines
  have body := Program.runs_of_standsFor
    (standsFor_of_abstracts environment abstracts direct noOperands (rowLength ▸ narrow))
    run cluster.routines
  have count : (UInt16.ofNat cluster.arity).toNat
      = ((cluster.row member).map (environment.combine · [])).reverse.length := by
    rw [UInt16.toNat_ofNat_of_lt' narrow, List.length_reverse, List.length_map, rowLength]
  rw [List.append_nil] at pushed
  exact pushed.append (.call (if_pos rfl) count body [])

end Cluster

namespace Program

/-- What is asked of the formulas of a program and of the definitions they lead to: definitions are
well formed, nothing is a parameter or a call of a routine, and every custom function is used with
one number of operands.
-/
structure Regular (program : Program) : Prop where
  valid
    : ∀ instruction definition, program.Uses instruction
      → program.Abbreviates instruction definition → definition.isValid = true
  noArgument : ∀ slot, ¬ program.Uses (.argument slot)
  noRoutine : ∀ cluster arity, ¬ program.Uses (.routine cluster arity)
  arity
    : ∀ name first second, program.Uses (.customFunction name first)
      → program.Uses (.customFunction name second) → first = second

/-- (program.Settled instruction) means that the instruction is a literal, or that it is used and
stands for no definition.
-/
def Settled (program : Program) (instruction : Instruction) : Prop :=
  (∃ value, instruction = .number value)
    ∨ (program.Uses instruction ∧ ∀ definition, ¬ program.Abbreviates instruction definition)

/-- In a regular program a settled instruction that has a head is direct. -/
theorem Settled.direct {program : Program} (regular : program.Regular) {instruction : Instruction}
    (settled : program.Settled instruction) {head : Head} (headed : instruction.head? = some head)
    : program.Direct instruction := by
  obtain ⟨value, rfl⟩ | ⟨used, direct⟩ := settled
  · exact ⟨rfl, nofun⟩
  · refine ⟨?_, direct⟩
    cases instruction with
    | argument slot => exact absurd used (regular.noArgument slot)
    | routine cluster arity => exact absurd used (regular.noRoutine cluster arity)
    | customOperator id name access =>
        cases access with
        | delayed => rfl
        | foreign => nomatch headed
    | _ => rfl

/-- In a regular program settled instructions with the same head are equal, operands apart. -/
theorem Settled.eq_of_head? {program : Program} (regular : program.Regular)
    {first second : Instruction} (one : program.Settled first) (other : program.Settled second)
    {head : Head} (headed : first.head? = some head) (otherHeaded : second.head? = some head)
    (structural : head ≠ .operand)
    : first = second := by
  cases head with
  | operand => exact absurd rfl structural
  | operator op =>
      rw [Instruction.head?_eq_operator_iff.mp headed,
        Instruction.head?_eq_operator_iff.mp otherHeaded]
  | elementary fn =>
      rw [Instruction.head?_eq_elementary_iff.mp headed,
        Instruction.head?_eq_elementary_iff.mp otherHeaded]
  | label label =>
      cases label with
      | function name =>
          obtain ⟨arity, rfl⟩ := Instruction.head?_eq_function_iff.mp headed
          obtain ⟨otherArity, rfl⟩ := Instruction.head?_eq_function_iff.mp otherHeaded
          obtain ⟨_, literal⟩ | ⟨used, _⟩ := one
          · nomatch literal
          · obtain ⟨_, literal⟩ | ⟨otherUsed, _⟩ := other
            · nomatch literal
            · rw [regular.arity name arity otherArity used otherUsed]
      | routine cluster =>
          obtain ⟨arity, rfl⟩ := Instruction.head?_eq_routine_iff.mp headed
          obtain ⟨_, literal⟩ | ⟨used, _⟩ := one
          · nomatch literal
          · exact absurd used (regular.noRoutine cluster arity)

/-- Preparation that succeeds expands the registered formula, and every other form comes from
folding.
-/
theorem prepare_eq_ok {program : Program} {id : StateId} {prepared : Prepared}
    (done : program.prepare id = .ok prepared)
    : ∃ state, program.registry.get? id = some state
      ∧ state.formula.Expands program.model program.isPersistent prepared.expanded
      ∧ ∀ form ∈ prepared.candidates, form = prepared.expanded
        ∨ ∃ changed, prepared.expanded.fold = .ok (form, changed) := by
  unfold prepare Registry.get prepareFormula at done
  cases known : program.registry.get? id with
  | none =>
      rw [known] at done
      nomatch done
  | some state =>
      rw [known] at done
      dsimp only at done
      split at done
      · nomatch done
      · rename_i expanded expandedOk
        split at done
        · nomatch done
        · rename_i folded changed foldedOk
          cases done
          refine ⟨state, rfl, Formula.expands_of_expandWithin expandedOk, ?_⟩
          intro form listed
          rcases List.mem_cons.mp listed with same | listed
          · exact Or.inl same
          · refine Or.inr ⟨changed, ?_⟩
            cases changed with
            | true =>
                rw [List.mem_singleton.mp listed]
                exact foldedOk
            | false => nomatch listed

/-- The forms of a prepared state consist of settled instructions. -/
theorem settled_of_prepare {program : Program} {id : StateId} {prepared : Prepared}
    (done : program.prepare id = .ok prepared) {form : Formula}
    (listed : form ∈ prepared.candidates)
    : ∀ instruction ∈ form, program.Settled instruction := by
  obtain ⟨state, known, expands, forms⟩ := prepare_eq_ok done
  have expandedSettled : ∀ instruction ∈ prepared.expanded, program.Settled instruction := by
    intro instruction member
    refine Or.inr (expands.origin ?_ ?_ instruction member)
    · exact fun outer inside => .registered (List.mem_of_getElem? known) inside
    · exact fun outer definition used abbreviates inner inside => .defined used abbreviates inside
  rcases forms form listed with rfl | ⟨changed, folded⟩
  · exact expandedSettled
  · exact Formula.origin_of_fold folded (fun value => Or.inl ⟨value, rfl⟩) expandedSettled

/-- A prepared state with a well-formed formula has a value, and every form of it that is not empty
leaves that value.
-/
theorem evaluates_of_prepare {program : Program} (regular : program.Regular)
    (environment : Environment) {id : StateId} {prepared : Prepared}
    (done : program.prepare id = .ok prepared)
    (valid : ∀ state ∈ program.registry.states, state.formula.isValid = true)
    (plain : ∀ instruction ∈ prepared.expanded, instruction.isPlain = true) {form : Formula}
    (listed : form ∈ prepared.candidates) (nonempty : form ≠ [])
    (routines : ClusterId → Option Formula)
    : ∃ state value, program.registry.get? id = some state
      ∧ program.Evaluates environment routines state.formula value
      ∧ form.Leaves environment.combine [] [value] := by
  obtain ⟨state, known, expands, forms⟩ := prepare_eq_ok done
  have registered : state ∈ program.registry.states := List.mem_of_getElem? known
  -- An empty formula has only empty forms.
  have formulaNonempty : state.formula ≠ [] := by
    intro empty
    rw [empty] at expands
    rw [expands.eq_nil] at forms
    rcases forms form listed with same | ⟨changed, folded⟩
    · exact nonempty same
    · cases folded
      exact nonempty rfl
  obtain ⟨value, run, evaluates⟩ := evaluates_of_expands environment routines expands
    regular.valid (fun instruction inside => .registered registered inside) plain
    (valid state registered) formulaNonempty
  refine ⟨state, value, known, evaluates, ?_⟩
  rcases forms form listed with rfl | ⟨changed, folded⟩
  · exact run
  · obtain ⟨result, before, after⟩ := Formula.leaves_of_fold environment.standard folded
    obtain rfl := run.unique before
    exact after

theorem settled_of_candidate {program : Program} {entries : List (StateId × Prepared)}
    (prepared : ∀ entry ∈ entries, program.prepare entry.1 = .ok entry.2) {member : Member}
    (candidate : member ∈ Mining.candidates entries)
    : ∀ instruction ∈ member.formula, program.Settled instruction := by
  obtain ⟨forms, entry, listed, _⟩ := Mining.mem_candidates_iff.mp candidate
  exact settled_of_prepare (prepared _ entry) listed

/-- Candidates that were signed consist of direct instructions. -/
theorem direct_of_candidate {program : Program} (regular : program.Regular)
    {entries : List (StateId × Prepared)}
    (prepared : ∀ entry ∈ entries, program.prepare entry.1 = .ok entry.2)
    {table later : CodeTable} {signed : List (Signature × Member)}
    (done : Mining.signAll table (Mining.candidates entries) = (.ok signed, later))
    {member : Member} (candidate : member ∈ Mining.candidates entries)
    : ∀ instruction ∈ member.formula, program.Direct instruction := by
  intro instruction inside
  have settled := settled_of_candidate prepared candidate instruction inside
  obtain ⟨_, members, signs⟩ := Mining.signAll_eq_ok done
  obtain ⟨entry, entrySigned, rfl⟩ := List.mem_map.mp (members ▸ candidate)
  obtain ⟨head, headed⟩ := (signs entry entrySigned).exists_head inside
  exact settled.direct regular headed

/-- The members of a class agree up to operands. -/
theorem uniform_classOf {program : Program} (regular : program.Regular)
    {entries : List (StateId × Prepared)}
    (prepared : ∀ entry ∈ entries, program.prepare entry.1 = .ok entry.2)
    {table later : CodeTable} {signed : List (Signature × Member)}
    (done : Mining.signAll table (Mining.candidates entries) = (.ok signed, later))
    (signature : Signature)
    : Cluster.Uniform signature (Mining.classOf signed signature) := by
  refine Mining.uniform_of_signs
    (fun member inside => (Mining.signs_of_mem_classOf done inside).2) ?_
  have settled : ∀ instruction, (∃ member ∈ Mining.classOf signed signature,
      instruction ∈ member.formula) → program.Settled instruction := by
    rintro instruction ⟨member, inside, used⟩
    have candidate := (Mining.signs_of_mem_classOf done inside).1
    exact settled_of_candidate prepared candidate instruction used
  intro first second head one other headed otherHeaded structural
  exact (settled first one).eq_of_head? regular (settled second other) headed otherHeaded
    structural

end Program

namespace Session

/-- Clustering preserves meaning. In a session whose states were admitted and whose program is
regular, the call site of every member of every cluster that is found has one value in every
environment, and it is the value of the formula registered for that state.
-/
theorem callSite_preserves_value {session : Session} (admitted : session.Admitted)
    (regular : session.program.Regular) {states : List StateId} {set : ClusterSet}
    (mined : (session.mineFor states).1 = .ok set) {cluster : Cluster}
    (found : cluster ∈ set.clusters) (narrow : cluster.arity < 65536) {state : StateId}
    (belongs : state ∈ cluster.states) (environment : Environment)
    : ∃ registered call value, session.program.registry.get? state = some registered
      ∧ cluster.callSite? state = some call
      ∧ (∀ result, session.program.Evaluates environment (fun _ => none) registered.formula result
        ↔ result = value)
      ∧ (∀ result, session.program.Evaluates environment cluster.routines call result
        ↔ result = value) := by
  obtain ⟨entries, signed, table, preparedAll, signedAll, rfl⟩ := mineFor_eq_ok mined found
  have prepared := Program.prepare_of_prepareAll preparedAll
  obtain ⟨id, signature, rfl⟩ := Mining.eq_close_of_mem_survey found
  have uniform := Program.uniform_classOf regular prepared signedAll signature
  obtain ⟨member, inside, rfl, call⟩ := Cluster.exists_callSite? belongs
  have inClass := Cluster.mem_members_close.mp inside
  have candidate := (Mining.signs_of_mem_classOf signedAll inClass).1
  obtain ⟨forms, entry, listed, nonempty⟩ := Mining.mem_candidates_iff.mp candidate
  -- The expanded form is signed beside the form that joined, so it is direct as well.
  have plain : ∀ instruction ∈ forms.expanded, instruction.isPlain = true := by
    intro instruction used
    have expanded : ⟨member.state, forms.expanded⟩ ∈ Mining.candidates entries :=
      Mining.mem_candidates_iff.mpr ⟨forms, entry, List.mem_cons_self, List.ne_nil_of_mem used⟩
    exact (Program.direct_of_candidate regular prepared signedAll expanded instruction used).plain
  obtain ⟨registered, value, known, evaluates, run⟩ := Program.evaluates_of_prepare regular
    environment (prepared _ entry) admitted.formula_isValid plain listed nonempty fun _ => none
  have callEvaluates := Cluster.evaluates_call (Cluster.abstracts_prototype id uniform inClass)
    (fun _ => Cluster.mem_row_close id uniform inClass)
    (Program.direct_of_candidate regular prepared signedAll candidate) narrow run
  exact ⟨registered, _, value, known, call, evaluates.iff_eq, callEvaluates.iff_eq⟩

-----------------------------------------------------------------------------------------
-- A cluster of a folded and an expanded formula
-----------------------------------------------------------------------------------------

/-- Three as a literal. -/
def three : Instruction :=
  .number ⟨0x4008000000000000⟩

/-- Five as a literal. -/
def five : Instruction :=
  .number ⟨0x4014000000000000⟩

/-- A state that adds something to a variable. -/
def shiftedState (name : String) (target read : Nat) (added : Instruction) : State where
  target := .var (.ofIndex target)
  role := .direct
  formula := [.var (.ofIndex read), added, .operator .add]
  name := name

/-- Two inputs, an abbreviation that folds to three, and two variables to be written. -/
def shiftsModel : Model where
  vars :=
    [⟨"x", ⟨true, false, false, false⟩, none⟩, ⟨"y", ⟨true, false, false, false⟩, none⟩,
      ⟨"shift", ⟨false, false, false, false⟩, some [three, .number .nan, .elementary .max]⟩,
      ⟨"a", ⟨false, false, false, false⟩, none⟩, ⟨"b", ⟨false, false, false, false⟩, none⟩]

/-- One state adds the abbreviation to its input, the other one a literal. -/
def shifts : Session :=
  [shiftedState "a" 3 0 (.var (.ofIndex 2)), shiftedState "b" 4 1 five].foldl
    (fun session state => (session.addState state).toOption.elim session Prod.snd)
    { start ⟨2, false⟩ with program := ⟨shiftsModel, .empty⟩ }

/-- Both states in one cluster, the first with its folded formula. -/
def shiftsCluster : Cluster where
  id := .ofIndex 0
  signature := [0, 0, 1]
  prototype := [.argument 0, .argument 1, .operator .add]
  parameters := [0, 1]
  arguments := [[0], [1]]
  members :=
    [⟨.ofIndex 0, [.var (.ofIndex 0), three, .operator .add]⟩,
      ⟨.ofIndex 1, [.var (.ofIndex 1), five, .operator .add]⟩]

/-- All that the formulas of the two states lead to. -/
def shiftsInstructions : List Instruction :=
  [.var (.ofIndex 0), .var (.ofIndex 1), .var (.ofIndex 2), .operator .add, five, three,
    .number .nan, .elementary .max]

theorem shifts_admitted : shifts.Admitted := by
  refine List.foldlRecOn _ _ (.remodel (.start ⟨2, false⟩) shiftsModel) ?_
  intro session admitted state _
  cases result : session.addState state with
  | error error => exact admitted
  | ok next => exact .addState admitted result

/-- Definitions that the states lead to are well formed and lead to nothing new. -/
theorem shifts_definitions {outer : Instruction} (known : outer ∈ shiftsInstructions)
    {definition : Formula} (abbreviates : shifts.program.Abbreviates outer definition)
    : definition.isValid = true ∧ ∀ inner ∈ definition, inner ∈ shiftsInstructions := by
  obtain ⟨id, spliced⟩ := Model.abbreviates_iff.mp abbreviates
  have checked : (shiftsInstructions.all fun outer =>
      (shifts.program.model.splice? shifts.program.isPersistent outer).all fun entry =>
        entry.2.isValid && entry.2.all fun inner => decide (inner ∈ shiftsInstructions))
      = true := by
    cbv
  have entry := List.all_eq_true.mp checked outer known
  rw [spliced] at entry
  simpa using entry

/-- What the states use is listed, by induction on the use. -/
theorem shifts_uses {instruction : Instruction} (used : shifts.program.Uses instruction)
    : instruction ∈ shiftsInstructions := by
  induction used with
  | @registered state instruction known member =>
      have checked : (shifts.program.registry.states.all fun state =>
          state.formula.all fun inner => decide (inner ∈ shiftsInstructions)) = true := by
        cbv
      have entry := List.all_eq_true.mp checked state known
      exact of_decide_eq_true (List.all_eq_true.mp entry instruction member)
  | defined _ abbreviates member ih => exact (shifts_definitions ih abbreviates).2 _ member

theorem shifts_regular : shifts.program.Regular where
  valid _ _ used abbreviates := (shifts_definitions (shifts_uses used) abbreviates).1
  noArgument _ used := by simpa [shiftsInstructions, three, five] using shifts_uses used
  noRoutine _ _ used := by simpa [shiftsInstructions, three, five] using shifts_uses used
  arity _ _ _ used _ := by simpa [shiftsInstructions, three, five] using shifts_uses used

/-- The sum with the abbreviation has the value of the call with a three, in any environment. -/
theorem callSite_preserves_value_shifts
    : (shifts.mineFor [.ofIndex 0, .ofIndex 1]).1 = .ok ⟨[shiftsCluster], ⟨2, 1, 0, 1, 11⟩⟩
      ∧ ∀ environment, ∃ value,
        (∀ result, shifts.program.Evaluates environment (fun _ => none)
            [.var (.ofIndex 0), .var (.ofIndex 2), .operator .add] result
          ↔ result = value)
        ∧ (∀ result, shifts.program.Evaluates environment shiftsCluster.routines
            [.var (.ofIndex 0), three, .routine (.ofIndex 0) 2] result
          ↔ result = value) := by
  have mined : (shifts.mineFor [.ofIndex 0, .ofIndex 1]).1
      = .ok ⟨[shiftsCluster], ⟨2, 1, 0, 1, 11⟩⟩ := by
    cbv
  refine ⟨mined, ?_⟩
  intro environment
  have belongs : .ofIndex 0 ∈ shiftsCluster.states := by simp [shiftsCluster, Cluster.states]
  obtain ⟨registered, call, value, known, called, before, after⟩ :=
    callSite_preserves_value shifts_admitted shifts_regular mined List.mem_cons_self (by decide)
      belongs environment
  have formula : registered.formula
      = [.var (.ofIndex 0), .var (.ofIndex 2), .operator .add] := by
    have stored : (shifts.program.registry.get? (.ofIndex 0)).map State.formula
        = some [.var (.ofIndex 0), .var (.ofIndex 2), .operator .add] := by
      cbv
    rw [known] at stored
    exact Option.some.inj stored
  have site : shiftsCluster.callSite? (.ofIndex 0)
      = some [.var (.ofIndex 0), three, .routine (.ofIndex 0) 2] := by
    cbv
  obtain rfl := Option.some.inj (called.symm.trans site)
  exact ⟨value, formula ▸ before, after⟩

end Session

end StepPlan
