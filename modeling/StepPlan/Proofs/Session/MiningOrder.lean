import StepPlan.Proofs.Cluster.Determinism
import StepPlan.Proofs.Session.Mining

/-! A search for clusters depends on the set of states that it is given. Neither their order, nor
repetitions, nor the codes that were handed out before make a difference to what is found. Only the
codes of custom functions and routines differ, and in both tables they are codes of the same label.
-/

namespace StepPlan

/-- Clusters that agree but for the codes of custom functions and routines in their signatures. -/
structure Cluster.Agrees (table other : CodeTable) (cluster counterpart : Cluster) : Prop where
  id : cluster.id = counterpart.id
  prototype : cluster.prototype = counterpart.prototype
  parameters : cluster.parameters = counterpart.parameters
  arguments : cluster.arguments = counterpart.arguments
  members : cluster.members = counterpart.members
  signature
    : List.Forall₂ (CodeTable.SameCode table other) cluster.signature counterpart.signature

theorem ClusterSet.clusterOf?_eq_of_unsigned {set other : ClusterSet}
    (same : set.clusters.map Cluster.unsigned = other.clusters.map Cluster.unsigned)
    (state : StateId)
    : set.clusterOf? state = other.clusterOf? state := by
  have unsigned : ∀ clusters : List Cluster,
      (clusters.reverse.find? fun cluster => cluster.contains state).map Cluster.id
      = ((clusters.map Cluster.unsigned).reverse.find? fun cluster => cluster.contains state).map
          Cluster.id := by
    intro clusters
    rw [← List.map_reverse, List.find?_map, Option.map_map]
    rfl
  rw [clusterOf?_eq_find?, clusterOf?_eq_find?, unsigned set.clusters, unsigned other.clusters,
    same]

namespace Session

variable {session : Session} {states : List StateId}

/-- The candidates have heads throughout exactly when the forms of the states have. -/
theorem headed_candidates_iff {entries : List (StateId × Prepared)}
    (prepared : session.program.prepareAll states.eraseDups = .ok entries)
    : (∀ member ∈ Mining.candidates entries,
        ∀ instruction ∈ member.formula, instruction.head? ≠ none)
      ↔ ∀ id ∈ states,
          ∀ form,
            session.program.HasForm id form
            → ∀ instruction ∈ form, instruction.head? ≠ none := by
  constructor
  · intro headed id listed form hasForm instruction used
    have candidate : ⟨id, form⟩ ∈ Mining.candidates entries :=
      (Mining.mem_candidates_iff_hasForm prepared).mpr
        ⟨List.mem_eraseDups.mpr listed, hasForm, List.ne_nil_of_mem used⟩
    exact headed ⟨id, form⟩ candidate instruction used
  · intro headed member candidate
    obtain ⟨listed, hasForm, _⟩ := (Mining.mem_candidates_iff_hasForm prepared).mp candidate
    exact headed member.state (List.mem_eraseDups.mp listed) member.formula hasForm

/-- A search succeeds if every state can be prepared and, with clustering enabled, no form of a
state has an instruction without a head.
-/
theorem exists_mineFor_iff
    : (∃ set later, session.mineFor states = (.ok set, later))
      ↔ (∀ id ∈ states, ∃ prepared, session.program.prepare id = .ok prepared)
        ∧ (session.options.disableClustering = true
          ∨ ∀ id ∈ states,
              ∀ form,
                session.program.HasForm id form
                → ∀ instruction ∈ form, instruction.head? ≠ none) := by
  have preparable : (∃ entries, session.program.prepareAll states.eraseDups = .ok entries)
      ↔ ∀ id ∈ states, ∃ prepared, session.program.prepare id = .ok prepared := by
    rw [Program.exists_prepareAll_iff]
    simp only [List.mem_eraseDups]
  rw [← preparable]
  unfold mineFor mine
  cases prepared : session.program.prepareAll states.eraseDups with
  | error error => simp
  | ok entries =>
      rw [← headed_candidates_iff prepared, ← Mining.exists_signAll_iff session.codes]
      cases disabled : session.options.disableClustering with
      | true => simp
      | false =>
          rcases done : Mining.signAll session.codes (Mining.candidates entries) with
            ⟨error | signed, later⟩
          · simp [done]
          · simp [done]

/-- Clusters of two searches that are equal up to their signatures agree, since the signature of
each cluster is right for its members.
-/
theorem agrees_of_unsigned {other later otherLater : Session} {others : List StateId}
    {set otherSet : ClusterSet} (mined : session.mineFor states = (.ok set, later))
    (otherMined : other.mineFor others = (.ok otherSet, otherLater)) {cluster counterpart : Cluster}
    (survives : cluster ∈ set.clusters) (otherSurvives : counterpart ∈ otherSet.clusters)
    (same : cluster.unsigned = counterpart.unsigned)
    : Cluster.Agrees later.codes otherLater.codes cluster counterpart := by
  obtain ⟨_, _, _, closes⟩ := closes_of_mem_mined mined survives
  obtain ⟨_, _, _, otherCloses⟩ := closes_of_mem_mined otherMined otherSurvives
  cases cluster
  cases counterpart
  cases same
  refine ⟨rfl, rfl, rfl, rfl, rfl, ?_⟩
  obtain ⟨first, inside, _⟩ := closes.exists_first
  have signs := ((closes.mem_iff first).mp inside).2
  exact signs.sameCode ((otherCloses.mem_iff first).mp inside).2

/-- Searches over the same set of states that succeed come to the same survey, or to none if
clustering is disabled.
-/
theorem unsigned_eq_of_mineFor {other later otherLater : Session} {others : List StateId}
    {set otherSet : ClusterSet} (mined : session.mineFor states = (.ok set, later))
    (otherMined : other.mineFor others = (.ok otherSet, otherLater))
    (program : other.program = session.program) (options : other.options = session.options)
    (same : ∀ id, id ∈ states ↔ id ∈ others)
    : set.report = otherSet.report
      ∧ set.clusters.map Cluster.unsigned = otherSet.clusters.map Cluster.unsigned := by
  rcases mineFor_cases mined with ⟨disabled, rfl⟩ | ⟨enabled, entries, signed, prepared, done, rfl⟩
  · rcases mineFor_cases otherMined with ⟨_, rfl⟩ | ⟨enabled, _⟩
    · exact ⟨rfl, rfl⟩
    · cases disabled.symm.trans (options ▸ enabled)
  · rcases mineFor_cases otherMined with
      ⟨disabled, _⟩ | ⟨_, otherEntries, otherSigned, otherPrepared, otherDone, rfl⟩
    · cases (options ▸ disabled).symm.trans enabled
    · rw [program] at otherPrepared
      rw [options]
      apply Mining.survey_closeAll_eq session.options prepared (nodup_eraseDups _) done
        otherPrepared (nodup_eraseDups _) otherDone
      intro id
      rw [List.mem_eraseDups, List.mem_eraseDups, same]

/-- Searches over the same set of states, whatever codes were handed out before, both fail or both
succeed, and then they find the same clusters under the same names and report the same.
-/
theorem mineFor_order_independent (session : Session) (table otherTable : CodeTable)
    {others : List StateId} (same : ∀ id, id ∈ states ↔ id ∈ others)
    : (∃ error otherError,
        ({ session with codes := table }.mineFor states).1 = .error error
        ∧ ({ session with codes := otherTable }.mineFor others).1 = .error otherError)
      ∨ ∃ set otherSet later otherLater,
          { session with codes := table }.mineFor states = (.ok set, later)
          ∧ { session with codes := otherTable }.mineFor others = (.ok otherSet, otherLater)
          ∧ List.Forall₂ (Cluster.Agrees later.codes otherLater.codes) set.clusters
              otherSet.clusters
          ∧ (∀ state, set.clusterOf? state = otherSet.clusterOf? state)
          ∧ set.report = otherSet.report := by
  have agree : (∃ set later, { session with codes := table }.mineFor states = (.ok set, later))
      ↔ ∃ set later, { session with codes := otherTable }.mineFor others = (.ok set, later) := by
    simp only [exists_mineFor_iff, same]
  rcases run : { session with codes := table }.mineFor states with ⟨error | set, later⟩
  · rcases otherRun : { session with codes := otherTable }.mineFor others with
      ⟨otherError | otherSet, otherLater⟩
    · exact Or.inl ⟨error, otherError, congrArg Prod.fst run, congrArg Prod.fst otherRun⟩
    · obtain ⟨set, last, succeeded⟩ := agree.mpr ⟨otherSet, otherLater, otherRun⟩
      cases run.symm.trans succeeded
  · obtain ⟨otherSet, otherLater, otherRun⟩ := agree.mp ⟨set, later, run⟩
    obtain ⟨report, unsigned⟩ := unsigned_eq_of_mineFor run otherRun rfl rfl same
    refine Or.inr ⟨set, otherSet, later, otherLater, run, otherRun, ?_, ?_, report⟩
    · have length : set.clusters.length = otherSet.clusters.length := by
        simpa using congrArg List.length unsigned
      refine List.forall₂_iff_get.mpr ⟨length, fun position bound otherBound => ?_⟩
      refine agrees_of_unsigned run otherRun (List.get_mem _ _) (List.get_mem _ _) ?_
      have here := congrArg (·[position]?) unsigned
      simpa [bound, otherBound] using here
    · exact ClusterSet.clusterOf?_eq_of_unsigned unsigned

/-- A state that calls a custom function on an input. -/
def callState (name : String) (target read : Nat) : State where
  target := .var (.ofIndex target)
  role := .direct
  formula := [.var (.ofIndex read), .customFunction "g" 1]
  name := name

/-- Two states that call the same function on different inputs, and codes handed out before. -/
def calls (labels : List Label) : Session where
  program := {
    model := ⟨[⟨"x", ⟨true, false, false, false⟩, none⟩, ⟨"y", ⟨true, false, false, false⟩, none⟩,
      ⟨"a", ⟨false, true, false, false⟩, none⟩, ⟨"b", ⟨false, true, false, false⟩, none⟩]⟩
    registry := [callState "a" 2 0, callState "b" 3 1].foldl
      (fun registry state => (registry.add state).2) .empty
  }
  options := ⟨2, false⟩
  codes := ⟨labels⟩
  memo := .empty

/-- The cluster of the two calls, if the function has the given code. -/
def callsCluster (code : Code) : Cluster where
  id := .ofIndex 0
  signature := [Signature.placeholder, code]
  prototype := [.argument 0, .customFunction "g" 1]
  parameters := [0]
  arguments := [[0]]
  members :=
    [⟨.ofIndex 0, [.var (.ofIndex 0), .customFunction "g" 1]⟩,
      ⟨.ofIndex 1, [.var (.ofIndex 1), .customFunction "g" 1]⟩]

/-- The function gets another code where a code was handed out before. All else is the same. -/
theorem mineFor_order_independent_calls
    : ∃ later otherLater : Session,
        (calls []).mineFor [.ofIndex 0, .ofIndex 1]
          = (.ok ⟨[callsCluster Signature.labelBase], ⟨1, 0, 0, 1, 8⟩⟩, later)
        ∧ (calls [.function "h"]).mineFor [.ofIndex 1, .ofIndex 0, .ofIndex 1]
          = (.ok ⟨[callsCluster (Signature.labelBase + 1)], ⟨1, 0, 0, 1, 8⟩⟩, otherLater)
        ∧ Cluster.Agrees later.codes otherLater.codes (callsCluster Signature.labelBase)
            (callsCluster (Signature.labelBase + 1)) := by
  have run : ((calls []).mineFor [.ofIndex 0, .ofIndex 1]).1
      = .ok ⟨[callsCluster Signature.labelBase], ⟨1, 0, 0, 1, 8⟩⟩ := by
    cbv
  have otherRun : ((calls [.function "h"]).mineFor [.ofIndex 1, .ofIndex 0, .ofIndex 1]).1
      = .ok ⟨[callsCluster (Signature.labelBase + 1)], ⟨1, 0, 0, 1, 8⟩⟩ := by
    cbv
  have same : ∀ id : StateId,
      id ∈ [.ofIndex 0, .ofIndex 1] ↔ id ∈ [.ofIndex 1, .ofIndex 0, .ofIndex 1] := by
    intro id
    simp only [List.mem_cons, List.not_mem_nil, or_false]
    tauto
  rcases mineFor_order_independent (calls []) ⟨[]⟩ ⟨[.function "h"]⟩ same with
    ⟨_, _, failed, _⟩ | ⟨_, _, later, otherLater, mined, otherMined, agrees, _⟩
  · cases run.symm.trans failed
  · cases run.symm.trans (congrArg Prod.fst mined)
    cases otherRun.symm.trans (congrArg Prod.fst otherMined)
    cases agrees with
    | cons agrees _ => exact ⟨later, otherLater, mined, otherMined, agrees⟩

end Session

end StepPlan
