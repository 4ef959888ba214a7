import StepPlan.Cluster
import StepPlan.Options
import StepPlan.Program

/-! The search for clusters. Every state contributes its expanded formula and, if folding
changed it, its folded formula. Candidates of equal signature form a class, each class is
closed, and among the classes that are large enough a disjoint selection is made: every class
is tried as the seed of a first-fit pass, and the cheapest selection wins.
-/

namespace StepPlan

/-- How a search for clusters went. -/
structure MiningReport where
  /-- The closed classes. -/
  candidates : Nat
  /-- Those with too few members. -/
  discardedSmall : Nat
  /-- Those left out because a cheaper selection covers their members. -/
  droppedConflicts : Nat
  /-- Those that were kept. -/
  selected : Nat
  /-- The cost of the selection. -/
  selectionCost : Nat
  deriving DecidableEq

/-- The clusters that survive, each named by its position. -/
structure ClusterSet where
  clusters : List Cluster
  report : MiningReport
  deriving DecidableEq

/-- Lists of numbers in dictionary order. -/
def compareNumbers : List Nat → List Nat → Ordering
  | [], [] => .eq
  | [], _ :: _ => .lt
  | _ :: _, [] => .gt
  | first :: firsts, second :: seconds =>
      (compare first second).then (compareNumbers firsts seconds)

namespace ClusterSet

/-- No clusters, and nothing to report. -/
def empty : ClusterSet :=
  ⟨[], ⟨0, 0, 0, 0, 0⟩⟩

/-- The cluster with the given name. -/
def get? (set : ClusterSet) (id : ClusterId) : Option Cluster :=
  set.clusters[id.index]?

/-- Writes a cluster down as the owner of each of its members. -/
def own (owners : List (StateId × ClusterId)) (cluster : Cluster)
    : List (StateId × ClusterId) :=
  cluster.states.foldl (fun owners state => (state, cluster.id) :: owners) owners

/-- The owners of all members, the latest first. They are written down once clusters have got their
names.
-/
def owners (set : ClusterSet) : List (StateId × ClusterId) :=
  set.clusters.foldl own []

/-- The cluster that a state belongs to. -/
def clusterOf? (set : ClusterSet) (state : StateId) : Option ClusterId :=
  set.owners.lookup state

/-- The members of every cluster, in dictionary order. -/
def memberSets (set : ClusterSet) : List (List StateId) :=
  (set.clusters.map Cluster.states).mergeSort fun first second =>
    (compareNumbers (first.map Ident.index) (second.map Ident.index)).isLE

end ClusterSet

namespace Mining

/-- The non-empty candidate formulas of all states, in order. -/
def candidates (entries : List (StateId × Prepared)) : List Member :=
  entries.flatMap fun entry =>
    (entry.2.candidates.filter fun formula => !formula.isEmpty).map fun formula =>
      ⟨entry.1, formula⟩

/-- Signs the candidates in order, until one fails. -/
def signAll (table : CodeTable) : List Member
    → Except Error (List (Signature × Member)) × CodeTable
  | [] => (.ok [], table)
  | member :: rest =>
      match table.sign member.formula with
      | (.error error, table) => (.error error, table)
      | (.ok signature, table) =>
          match signAll table rest with
          | (.error error, table) => (.error error, table)
          | (.ok signed, table) => (.ok ((signature, member) :: signed), table)

/-- The members that were signed with a signature, in order. -/
def classOf (signed : List (Signature × Member)) (signature : Signature) : List Member :=
  signed.filterMap fun entry => if entry.1 = signature then some entry.2 else none

/-- The signatures that occur, in order of first sight. -/
def signatures (signed : List (Signature × Member)) : List Signature :=
  (signed.map Prod.fst).eraseDups

/-- One closed cluster per signature. -/
def closeAll (signed : List (Signature × Member)) : List Cluster :=
  (signatures signed).mapIdx fun position signature =>
    .close (.ofIndex position) signature (classOf signed signature)

/-- The order of candidates: larger first, then cheaper, then by shape and by states. -/
def compareClusters (first second : Cluster) : Ordering :=
  (compare second.size first.size).then <|
    (compare first.cost second.cost).then <|
      (compare first.prototype.shape second.prototype.shape).then <|
        compareNumbers (first.states.map Ident.index) (second.states.map Ident.index)

/-- Candidates in a fixed order. -/
def sortClusters (clusters : List Cluster) : List Cluster :=
  clusters.mergeSort fun first second => (compareClusters first second).isLE

/-- The length of a state's expanded formula, the last one listed if there are several. -/
def inlineLength (entries : List (StateId × Prepared)) (state : StateId) : Nat :=
  match (entries.filter fun entry => entry.1 = state).getLast? with
  | some entry => entry.2.expanded.length
  | none => 0

/-- Whether a cluster has no state in common with those already chosen. -/
def fits (chosen : List Cluster) (cluster : Cluster) : Bool :=
  chosen.all fun other => !other.sharesMember cluster

/-- First fit: takes each cluster that fits those chosen before, the seed aside. Clusters come
with their positions.
-/
def firstFit (seed : Nat) : List (Cluster × Nat) → List (Cluster × Nat)
    → List (Cluster × Nat)
  | [], chosen => chosen
  | entry :: rest, chosen =>
      if entry.2 ≠ seed ∧ fits (chosen.map Prod.fst) entry.1 = true then
        firstFit seed rest (chosen ++ [entry])
      else firstFit seed rest chosen

/-- The states that occur in some cluster, once each. -/
def coveredStates (clusters : List Cluster) : List StateId :=
  (clusters.flatMap Cluster.states).eraseDups

/-- The cost of a selection: that of its routines, and the inline length of every state that
occurs in a candidate but in no chosen cluster.
-/
def selectionCost (inline : StateId → Nat) (viable chosen : List Cluster) : Nat :=
  let covered := coveredStates chosen
  total Cluster.cost chosen
    + total inline ((coveredStates viable).filter fun state => !covered.contains state)

/-- The first of the cheapest alternatives. -/
def cheapest (cost : List (Cluster × Nat) → Nat)
    : List (List (Cluster × Nat)) → List (Cluster × Nat)
  | [] => []
  | first :: rest =>
      rest.foldl (fun best next => if cost next < cost best then next else best) first

/-- The positions of the best selection: the cheapest first-fit pass over all seeds. -/
def best (inline : StateId → Nat) (viable : List Cluster) : List Nat :=
  let numbered := viable.zipIdx
  let alternatives := numbered.map fun seed => firstFit seed.2 numbered [seed]
  (cheapest (fun chosen => selectionCost inline viable (chosen.map Prod.fst)) alternatives).map
    Prod.snd

/-- The clusters at some positions, in order. -/
def atPositions (positions : List Nat) (viable : List Cluster) : List Cluster :=
  (viable.zipIdx.filter fun entry => positions.contains entry.2).map Prod.fst

/-- How many clusters stand at other positions. -/
def countOthers (positions : List Nat) (viable : List Cluster) : Nat :=
  viable.zipIdx.countP fun entry => !positions.contains entry.2

/-- The best selection, in candidate order. -/
def select (inline : StateId → Nat) (viable : List Cluster) : List Cluster :=
  atPositions (best inline viable) viable

/-- The survivors, ordered by their first members and named by their positions. -/
def number (selected : List Cluster) : List Cluster :=
  let first (cluster : Cluster) : Option Nat := cluster.states.head?.map Ident.index
  (selected.mergeSort fun one other => (compare (first one) (first other)).isLE).mapIdx
    fun position cluster => { cluster with id := .ofIndex position }

/-- Chooses among the closed classes and reports on the choice. -/
def survey (options : Options) (entries : List (StateId × Prepared)) (closed : List Cluster)
    : ClusterSet :=
  let viable := sortClusters (closed.filter fun cluster =>
    decide (options.minClusterSize ≤ cluster.size))
  let inline := inlineLength entries
  let positions := best inline viable
  let selected := atPositions positions viable
  { clusters := number selected
    report :=
      { candidates := closed.length
        discardedSmall := closed.countP fun cluster =>
          decide (cluster.size < options.minClusterSize)
        droppedConflicts := countOthers positions viable
        selected := selected.length
        selectionCost := selectionCost inline viable selected } }

end Mining

/-- Groups the candidate formulas by signature and selects disjoint clusters. With clustering
disabled nothing is signed and no cluster survives.
-/
def mine (options : Options) (table : CodeTable) (entries : List (StateId × Prepared))
    : Except Error ClusterSet × CodeTable :=
  if options.disableClustering then (.ok .empty, table)
  else
    match Mining.signAll table (Mining.candidates entries) with
    | (.error error, table) => (.error error, table)
    | (.ok signed, table) => (.ok (Mining.survey options entries (Mining.closeAll signed)), table)

end StepPlan
