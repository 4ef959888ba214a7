import StepPlan.Program

/-! What a formula refers to. A variable that some state governs refers to that state's key; a
variable that none governs is looked through to its definition. Random draws, custom operators
and slots refer to keys of their own. What is found through a definition is kept in a memo, and
a walk that meets a variable in the memo takes over its referents.
-/

namespace StepPlan

/-- The kind of instruction by which a key is referred to. -/
inductive Reading where
  | var
  | draw
  | operator
  | slot
  deriving DecidableEq

/-- The label of an edge that comes from such a reference. -/
def Reading.label : Reading → String
  | .var => "var"
  | .draw => "rand"
  | .operator => "op"
  | .slot => "slot"

/-- A key that is referred to, and how. -/
structure Referent where
  key : Key
  reading : Reading
  deriving DecidableEq

/-- Whether values or initial values are being computed. Initializers prefer the initial value
storage of what they read.
-/
inductive Stage where
  | value
  | initial
  deriving DecidableEq

/-- The stage at which the formula of a role is read. -/
def Role.stage : Role → Stage
  | .initialization => .initial
  | _ => .value

/-- The referents found through the definitions of variables that no state governs. -/
structure Memo where
  known : List ((VarId × Stage) × List Referent)
  deriving DecidableEq

namespace Memo

/-- The memo that knows nothing. -/
def empty : Memo :=
  ⟨[]⟩

/-- The number of entries. -/
def size (memo : Memo) : Nat :=
  memo.known.length

/-- The referents found through a variable, if they are known. -/
def find? (memo : Memo) (id : VarId) (stage : Stage) : Option (List Referent) :=
  memo.known.lookup (id, stage)

/-- Adds an entry. -/
def insert (memo : Memo) (id : VarId) (stage : Stage) (found : List Referent) : Memo :=
  ⟨((id, stage), found) :: memo.known⟩

end Memo

namespace Program

/-- The key of the state that governs a target at a stage, if some state does. -/
def governingKey? (program : Program) (stage : Stage) (target : Target) : Option Key :=
  if stage = .initial ∧ (program.registry.governing? (.initial target)).isSome then
    some (.initial target)
  else (program.registry.governing? (.value target)).map fun _ => .value target

/-- The referents of an instruction that reads no variable. -/
def direct (program : Program) (stage : Stage) : Instruction → Except Error (List Referent)
  | .draw id => .ok [⟨.value (.draw id), .draw⟩]
  | .customOperator id _ _ =>
      .ok [⟨(program.governingKey? stage (.operator id)).getD (.value (.operator id)), .operator⟩]
  | .slot id =>
      match program.registry.get id with
      | .error error => .error error
      | .ok state => .ok [⟨state.key, .slot⟩]
  | _ => .ok []

/-- The state of a walk through definitions. -/
structure Walk where
  /-- Variables whose definitions are still to be read, the latest in front. -/
  pending : List VarId
  /-- Variables that were pending at some time. -/
  visited : List VarId
  /-- The referents met so far, with repetitions. -/
  found : List Referent
  deriving DecidableEq

/-- Reads one instruction of a definition. -/
def meet (program : Program) (memo : Memo) (stage : Stage) (walk : Walk)
    (instruction : Instruction) : Except Error Walk :=
  match instruction with
  | .var id =>
      match program.governingKey? stage (.var id) with
      | some key => .ok { walk with found := walk.found ++ [⟨key, .var⟩] }
      | none =>
          match memo.find? id stage with
          | some known => .ok { walk with found := walk.found ++ known }
          | none =>
              if walk.visited.contains id then .ok walk
              else .ok { walk with pending := id :: walk.pending, visited := id :: walk.visited }
  | other =>
      match program.direct stage other with
      | .error error => .error error
      | .ok referents => .ok { walk with found := walk.found ++ referents }

/-- Reads a definition from left to right, until an instruction fails. -/
def meetAll (program : Program) (memo : Memo) (stage : Stage) (walk : Walk)
    : Formula → Except Error Walk
  | [] => .ok walk
  | instruction :: rest =>
      match program.meet memo stage walk instruction with
      | .error error => .error error
      | .ok walk => program.meetAll memo stage walk rest

/-- Reads pending definitions, the latest first. `steps` bounds how many are read. -/
def explore (program : Program) (memo : Memo) (stage : Stage)
    : (steps : Nat) → Walk → Except Error (List Referent)
  | 0, walk => .ok walk.found
  | steps + 1, walk =>
      match walk.pending with
      | [] => .ok walk.found
      | id :: pending =>
          let rest := { walk with pending := pending }
          match program.meetAll memo stage rest ((program.model.definition? id).getD []) with
          | .error error => .error error
          | .ok walk => program.explore memo stage steps walk

/-- The referents found through the definition of a variable that no state governs. Apart from
that variable, only variables that some definition mentions become pending, each once.
-/
def throughDefinition (program : Program) (memo : Memo) (stage : Stage) (id : VarId)
    : Except Error (List Referent) × Memo :=
  match memo.find? id stage with
  | some known => (.ok known, memo)
  | none =>
      match program.explore memo stage (program.model.mentions + 1) ⟨[id], [id], []⟩ with
      | .error error => (.error error, memo)
      | .ok found => (.ok found.eraseDups, memo.insert id stage found.eraseDups)

/-- The referents of one instruction. -/
def referentsOf (program : Program) (memo : Memo) (stage : Stage) (instruction : Instruction)
    : Except Error (List Referent) × Memo :=
  match instruction with
  | .var id =>
      match program.governingKey? stage (.var id) with
      | some key => (.ok [⟨key, .var⟩], memo)
      | none => program.throughDefinition memo stage id
  | other => (program.direct stage other, memo)

/-- The referents of every instruction, with repetitions, until one fails. -/
def allReferents (program : Program) (memo : Memo) (stage : Stage)
    : Formula → Except Error (List Referent) × Memo
  | [] => (.ok [], memo)
  | instruction :: rest =>
      match program.referentsOf memo stage instruction with
      | (.error error, memo) => (.error error, memo)
      | (.ok found, memo) =>
          match program.allReferents memo stage rest with
          | (.error error, memo) => (.error error, memo)
          | (.ok more, memo) => (.ok (found ++ more), memo)

/-- The referents of a formula, each once, in order of first sight. The memo keeps what was
found before a failure.
-/
def referents (program : Program) (memo : Memo) (stage : Stage) (formula : Formula)
    : Except Error (List Referent) × Memo :=
  match program.allReferents memo stage formula with
  | (.error error, memo) => (.error error, memo)
  | (.ok found, memo) => (.ok found.eraseDups, memo)

end Program

end StepPlan
