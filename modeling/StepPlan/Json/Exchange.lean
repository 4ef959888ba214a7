import StepPlan.Json.Form
import StepPlan.Json.Reader
import StepPlan.Json.Writer
import StepPlan.Report

/-! The JSON forms of formulas, models, registries, signatures and options, which are read and
written, and those of clusters, schedules and reports, which are only written. They are the same
however doubles are printed and read.
-/

namespace StepPlan

open Json

instance : JsonForm Operator := Tagged.form Operator
instance : JsonForm Elementary := Tagged.form Elementary
instance : JsonForm Access := Tagged.form Access
instance : JsonForm Role := Tagged.form Role
instance : JsonForm View := Tagged.form View
instance : JsonForm Phase := Tagged.form Phase

variable [NumberForm]

namespace Instruction

/-- The JSON form of an instruction. -/
def toJson : Instruction → Json
  | .number value => variant "Number" (Json.toJson value)
  | .var id => variant "Variable" (Json.toJson id)
  | .operator op => variant "Operator" (Json.toJson op)
  | .elementary fn => variant "Function" (Json.toJson fn)
  | .customFunction name arity =>
      variant "CustomFunction"
        (record [("name", Json.toJson name), ("arity", Json.toJson arity)])
  | .customOperator id name access =>
      variant "CustomOperator"
        (record [("id", Json.toJson id), ("name", Json.toJson name),
          ("kind", Json.toJson access)])
  | .draw id => variant "Rand" (Json.toJson id)
  | .slot state => variant "Slot" (Json.toJson state)
  | .routine cluster arity =>
      variant "Routine"
        (record [("cluster", Json.toJson cluster), ("arity", Json.toJson arity)])
  | .argument place => variant "Argument" (Json.toJson place)

/-- Reads what comes with the word of an instruction. -/
def ofContent? (word : String) (content : Json) : Option Instruction :=
  match word with
  | "Number" => (Json.ofJson? content).map .number
  | "Variable" => (Json.ofJson? content).map .var
  | "Operator" => (Json.ofJson? content).map .operator
  | "Function" => (Json.ofJson? content).map .elementary
  | "CustomFunction" =>
      match content.record? ["name", "arity"] with
      | some [name, arity] => do return .customFunction (← required? name) (← required? arity)
      | _ => none
  | "CustomOperator" =>
      match content.record? ["id", "name", "kind"] with
      | some [id, name, access] => do
          return .customOperator (← required? id) (← required? name) (← required? access)
      | _ => none
  | "Rand" => (Json.ofJson? content).map .draw
  | "Slot" => (Json.ofJson? content).map .slot
  | "Routine" =>
      match content.record? ["cluster", "arity"] with
      | some [cluster, arity] => do return .routine (← required? cluster) (← required? arity)
      | _ => none
  | "Argument" => (Json.ofJson? content).map .argument
  | _ => none

/-- Reads an instruction. -/
def ofJson? (value : Json) : Option Instruction :=
  match value.variant? with
  | some (word, some content) => ofContent? word content
  | _ => none

end Instruction

instance : JsonForm Instruction where
  toJson := Instruction.toJson
  ofJson? := Instruction.ofJson?

namespace Formula

/-- The JSON form of a formula: a record of its instructions. -/
def toJson (formula : Formula) : Json :=
  record [("instructions", .array (formula.map Instruction.toJson))]

/-- Reads a formula. -/
def ofJson? (value : Json) : Option Formula :=
  match value.record? ["instructions"] with
  | some [instructions] => instructions.bind (Json.list? Instruction.ofJson?)
  | _ => none

end Formula

namespace Target

/-- The JSON form of a target. -/
def toJson : Target → Json
  | .var id => variant "Variable" (Json.toJson id)
  | .operator id => variant "Operator" (Json.toJson id)
  | .draw id => variant "Rand" (Json.toJson id)
  | .eventNode node slot =>
      variant "EventNode" (record [("node", Json.toJson node), ("slot", Json.toJson slot)])
  | .synthetic number => variant "Synthetic" (Json.toJson number)

/-- Reads what comes with the word of a target. -/
def ofContent? (word : String) (content : Json) : Option Target :=
  match word with
  | "Variable" => (Json.ofJson? content).map .var
  | "Operator" => (Json.ofJson? content).map .operator
  | "Rand" => (Json.ofJson? content).map .draw
  | "EventNode" =>
      match content.record? ["node", "slot"] with
      | some [node, slot] => do return .eventNode (← required? node) (← required? slot)
      | _ => none
  | "Synthetic" => (Json.ofJson? content).map .synthetic
  | _ => none

end Target

instance : JsonForm Target where
  toJson := Target.toJson
  ofJson? value :=
    match value.variant? with
    | some (word, some content) => Target.ofContent? word content
    | _ => none

instance : JsonForm Key where
  toJson key := record [("target", toJson key.target), ("view", toJson key.view)]
  ofJson? value :=
    match value.record? ["target", "view"] with
    | some [target, view] => do return ⟨← required? target, ← required? view⟩
    | _ => none

instance : JsonForm VariableFlags where
  toJson flags :=
    record [("input", toJson flags.input), ("output", toJson flags.output),
      ("once", toJson flags.once), ("integrated", toJson flags.integrated)]
  ofJson? value :=
    match value.record? ["input", "output", "once", "integrated"] with
    | some [input, output, once, integrated] => do
        return ⟨← required? input, ← required? output, ← required? once,
          ← required? integrated⟩
    | _ => none

namespace Variable

/-- The JSON form of a variable. A missing definition is null. -/
def toJson (known : Variable) : Json :=
  record [("name", Json.toJson known.name), ("flags", Json.toJson known.flags),
    ("definition", (known.definition.map Formula.toJson).getD .null)]

/-- Reads a definition, which may be null or missing. -/
def definition? : Option Json → Option (Option Formula)
  | none => some none
  | some .null => some none
  | some value => (Formula.ofJson? value).map some

/-- Reads a variable. -/
def ofJson? (value : Json) : Option Variable :=
  match value.record? ["name", "flags", "definition"] with
  | some [name, flags, definition] => do
      return ⟨← required? name, ← required? flags, ← definition? definition⟩
  | _ => none

end Variable

instance : JsonForm Variable where
  toJson := Variable.toJson
  ofJson? := Variable.ofJson?

instance : JsonForm Model where
  toJson model := record [("variables", toJson model.vars)]
  ofJson? value :=
    match value.record? ["variables"] with
    | some [vars] => do return ⟨← required? vars⟩
    | _ => none

instance : JsonForm Registry.Columns where
  toJson columns :=
    record [("targets", toJson columns.targets), ("roles", toJson columns.roles),
      ("expressions", .array (columns.formulas.map Formula.toJson)),
      ("names", toJson columns.names)]
  ofJson? value :=
    match value.record? ["targets", "roles", "expressions", "names"] with
    | some [targets, roles, formulas, names] => do
        return ⟨← required? targets, ← required? roles, ← formulas.bind (list? Formula.ofJson?),
          ← required? names⟩
    | _ => none

namespace Signature

/-- The JSON form of a signature. -/
def toJson (signature : Signature) : Json :=
  .array (signature.map .ofNat)

/-- Reads a signature, whose codes are 32-bit numbers. -/
def ofJson? (value : Json) : Option Signature :=
  value.list? (Json.toNatBelow? 0x100000000)

end Signature

namespace Options

/-- The JSON form of options. -/
def toJson (options : Options) : Json :=
  record [("min_cluster_size", .ofNat options.minClusterSize),
    ("disable_clustering", .bool options.disableClustering)]

/-- Reads a field that falls back to a standard choice when it is missing. -/
def choice? {α : Type} (standard : α) (read : Json → Option α) : Option Json → Option α
  | none => some standard
  | some value => read value

/-- Reads options. Fields that are missing take the standard choices. -/
def ofJson? (value : Json) : Option Options :=
  match value.fields? ["min_cluster_size", "disable_clustering"] 0 with
  | some [minimum, disable] => do
      return ⟨← choice? standard.minClusterSize (Json.toNatBelow? 0x10000000000000000) minimum,
        ← choice? standard.disableClustering Json.toBool? disable⟩
  | _ => none

/-- The normalized options that a text writes. -/
def parse? (text : String) : Option Options :=
  ((Json.parse? text).bind ofJson?).map normalized

end Options

/-- The JSON form of a member. -/
def Member.toJson (member : Member) : Json :=
  record [("state", Json.toJson member.state), ("expression", member.formula.toJson)]

/-- The JSON form of a list of positions. -/
def positionsToJson (positions : List Nat) : Json :=
  .array (positions.map .ofNat)

/-- The JSON form of a cluster. -/
def Cluster.toJson (cluster : Cluster) : Json :=
  record [("id", Json.toJson cluster.id), ("signature", cluster.signature.toJson),
    ("prototype", cluster.prototype.toJson),
    ("parameters", positionsToJson cluster.parameters),
    ("arguments", .array (cluster.arguments.map positionsToJson)),
    ("members", .array (cluster.members.map Member.toJson))]

/-- The JSON form of a group. -/
def Group.toJson (group : Group) : Json :=
  record [("cluster", Json.toJson group.cluster), ("states", Json.toJson group.states)]

/-- The JSON form of the schedule of a phase. -/
def PhaseSchedule.toJson (schedule : PhaseSchedule) : Json :=
  record [("phase", Json.toJson schedule.phase),
    ("groups", .array (schedule.groups.map Group.toJson))]

/-- The JSON form of the figures about a search for clusters. -/
def MiningReport.toJson (report : MiningReport) : Json :=
  record [("candidates", .ofNat report.candidates),
    ("discarded_small", .ofNat report.discardedSmall),
    ("dropped_conflicts", .ofNat report.droppedConflicts),
    ("selected", .ofNat report.selected), ("selection_cost", .ofNat report.selectionCost)]

/-- The JSON form of the figures about a schedule. -/
def ScheduleReport.toJson (report : ScheduleReport) : Json :=
  record [("groups", .ofNat report.groups), ("states", .ofNat report.states),
    ("clustered_states", .ofNat report.clusteredStates),
    ("clustered_share", Json.toJson report.clusteredShare),
    ("contiguity_breaks", .ofNat report.contiguityBreaks),
    ("largest_group", .ofNat report.largestGroup),
    ("mining", (report.mining.map MiningReport.toJson).getD .null)]

/-- The text of a value without blanks. -/
def writeText {α : Type} [JsonForm α] (value : α) : String :=
  (Json.toJson value).compact

/-- The value that a text writes. -/
def readText? {α : Type} [JsonForm α] (text : String) : Option α :=
  (Json.parse? text).bind Json.ofJson?

end StepPlan
