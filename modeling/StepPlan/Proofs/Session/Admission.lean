import StepPlan.Session

/-! What holds of a session whatever was asked of it. States come in only through admission, which
checks their formulas, and no request touches the formulas of the states that are there.
-/

namespace StepPlan.Session

/-- The sessions that come about when states are added one by one. In between, the model and the
options may change in any way, and any request may be made.
-/
inductive Admitted : Session → Prop
  | start (options : Options) : Admitted (.start options)
  | configure {session : Session} (earlier : Admitted session) (options : Options)
      : Admitted { session with options := options }
  | remodel {session : Session} (earlier : Admitted session) (model : Model)
      : Admitted { session with program := { session.program with model := model } }
  | addState {session next : Session} {state : State} {id : StateId} (earlier : Admitted session)
      (added : session.addState state = .ok (id, next))
      : Admitted next
  | sign {session : Session} (earlier : Admitted session) (formula : Formula)
      : Admitted (session.sign formula).2
  | mineFor {session : Session} (earlier : Admitted session) (states : List StateId)
      : Admitted (session.mineFor states).2
  | buildFor {session : Session} (earlier : Admitted session) (states : List StateId)
      (clusters : Option ClusterSet)
      : Admitted (session.buildFor states clusters).2
  | reset {session : Session} (earlier : Admitted session) : Admitted session.reset

/-- A search for clusters changes nothing but the codes. -/
theorem mineFor_program (session : Session) (states : List StateId)
    : (session.mineFor states).2.program = session.program := by
  unfold mineFor
  split <;> rfl

/-- A state that is added has a well-formed formula, and it is the only one that is new. -/
theorem addState_eq_ok {session next : Session} {state : State} {id : StateId}
    (added : session.addState state = .ok (id, next))
    : state.formula.isValid = true
      ∧ ∃ name, next.program.registry.states
        = session.program.registry.states ++ [{ state with name := name }] := by
  unfold addState admissible at added
  split at added
  · nomatch added
  · rename_i accepted
    cases added
    refine ⟨?_, _, rfl⟩
    split at accepted
    · nomatch accepted
    · rename_i validated
      rw [Formula.isValid, validated]

/-- The formulas of admitted states are well formed, by induction on the requests. -/
theorem Admitted.formula_isValid {session : Session} (admitted : session.Admitted)
    : ∀ state ∈ session.program.registry.states, state.formula.isValid = true := by
  induction admitted with
  | start => exact nofun
  | configure _ _ ih => exact ih
  | remodel _ _ ih => exact ih
  | addState _ added ih =>
      obtain ⟨valid, name, states⟩ := addState_eq_ok added
      rw [states]
      exact List.forall_mem_append.mpr ⟨ih, List.forall_mem_singleton.mpr valid⟩
  | sign _ _ ih => exact ih
  | mineFor _ states ih =>
      rw [mineFor_program]
      exact ih
  | buildFor _ _ _ ih => exact ih
  | reset _ ih => exact ih

/-- A search that finds a cluster has prepared and signed the candidates, and it surveys the classes
of their signatures.
-/
theorem mineFor_eq_ok {session : Session} {states : List StateId} {set : ClusterSet}
    {cluster : Cluster} (mined : (session.mineFor states).1 = .ok set)
    (found : cluster ∈ set.clusters)
    : ∃ entries signed table, session.program.prepareAll states.eraseDups = .ok entries
      ∧ Mining.signAll session.codes (Mining.candidates entries) = (.ok signed, table)
      ∧ set = Mining.survey session.options entries (Mining.closeAll signed) := by
  unfold mineFor mine at mined
  split at mined
  · nomatch mined
  · rename_i entries prepared
    dsimp only at mined
    split at mined
    · cases mined
      nomatch found
    · split at mined
      · nomatch mined
      · rename_i signed table signedAll
        exact ⟨entries, signed, table, prepared, signedAll, (Except.ok.inj mined).symm⟩

end StepPlan.Session
