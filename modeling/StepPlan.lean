import StepPlan.Binary64
import StepPlan.Binary64.Decimal
import StepPlan.Binary64.Hypotenuse
import StepPlan.Builtin
import StepPlan.Cluster
import StepPlan.Dot
import StepPlan.Error
import StepPlan.Filter
import StepPlan.Formula
import StepPlan.Formula.Expand
import StepPlan.Formula.Fold
import StepPlan.Graph
import StepPlan.Graph.Adjacency
import StepPlan.Ident
import StepPlan.Instruction
import StepPlan.Json.Exchange
import StepPlan.Json.Form
import StepPlan.Json.Number
import StepPlan.Json.Reader
import StepPlan.Json.Token
import StepPlan.Json.Value
import StepPlan.Json.Writer
import StepPlan.Key
import StepPlan.Mining
import StepPlan.Model
import StepPlan.Options
import StepPlan.Phase
import StepPlan.Program
import StepPlan.Proofs.Cluster.CallSite
import StepPlan.Proofs.Cluster.Classes
import StepPlan.Proofs.Cluster.Closing
import StepPlan.Proofs.Cluster.Determinism
import StepPlan.Proofs.Cluster.Mining
import StepPlan.Proofs.Cluster.Selection
import StepPlan.Proofs.Cluster.Survey
import StepPlan.Proofs.Components
import StepPlan.Proofs.Distinct
import StepPlan.Proofs.Formula.Evaluation
import StepPlan.Proofs.Formula.Expansion
import StepPlan.Proofs.Formula.Folding
import StepPlan.Proofs.Formula.Running
import StepPlan.Proofs.Formula.Pieces
import StepPlan.Proofs.Formula.Shortening
import StepPlan.Proofs.Graph.Building
import StepPlan.Proofs.Graph.Construction
import StepPlan.Proofs.Graph.Readings
import StepPlan.Proofs.Graph.Similarity
import StepPlan.Proofs.Graph.Wiring
import StepPlan.Proofs.Reachability
import StepPlan.Proofs.Referent
import StepPlan.Proofs.Referent.Agreement
import StepPlan.Proofs.Referent.Flat
import StepPlan.Proofs.Referent.Forms
import StepPlan.Proofs.Referent.Remembering
import StepPlan.Proofs.Schedule.Alignment
import StepPlan.Proofs.Schedule.Completeness
import StepPlan.Proofs.Schedule.Contiguity
import StepPlan.Proofs.Schedule.Grouping
import StepPlan.Proofs.Schedule.Jobs
import StepPlan.Proofs.Schedule.Progress
import StepPlan.Proofs.Schedule.Queues
import StepPlan.Proofs.Schedule.Soundness
import StepPlan.Proofs.Session.Admission
import StepPlan.Proofs.Session.ArrivalOrder
import StepPlan.Proofs.Session.Building
import StepPlan.Proofs.Session.Mining
import StepPlan.Proofs.Session.MiningOrder
import StepPlan.Proofs.Session.Repetition
import StepPlan.Proofs.Signature
import StepPlan.Proofs.Signature.Keys
import StepPlan.Proofs.Signature.Structure
import StepPlan.Signature.Keys
import StepPlan.Reach
import StepPlan.Referent
import StepPlan.Registry
import StepPlan.Report
import StepPlan.Schedule
import StepPlan.Schedule.Cycle
import StepPlan.Schedule.Queues
import StepPlan.Schedule.Workload
import StepPlan.Session
import StepPlan.Signature
import StepPlan.Tagged
import StepPlan.Text.Combining
import StepPlan.Text.Ignorable
import StepPlan.Text.Quoted
import StepPlan.Text.Ranges
import StepPlan.Text.Unprintable
import StepPlan.Total
import StepPlan.Proofs.Formula.FixedPoint
import StepPlan.Proofs.Graph.Queries
import StepPlan.Proofs.Graph.Representation
import StepPlan.Proofs.Binary64.Shortest
import StepPlan.Proofs.Json.Numeral
import StepPlan.Proofs.Json.Parsing
import StepPlan.Proofs.Json.Forms
import StepPlan.Proofs.Json.Literals
import StepPlan.Proofs.Formula.Circularity
import StepPlan.Proofs.Formula.Frames
import StepPlan.Proofs.Cluster.Abstraction
import StepPlan.Proofs.Cluster.Cheapest
import StepPlan.Proofs.Session.Selection
import StepPlan.Proofs.Schedule.Component
import StepPlan.Proofs.Schedule.Separation
import StepPlan.Proofs.Schedule.Levels
import StepPlan.Proofs.Filter
import StepPlan.Proofs.Registry
import StepPlan.Proofs.Formula.Sums
import StepPlan.Cluster.Search
import StepPlan.Components
import StepPlan.Graph.Columns
import StepPlan.Proofs.Graph.Columns
import StepPlan.Proofs.Report
import StepPlan.Proofs.Graph.History
import StepPlan.Proofs.Cluster.Queries
