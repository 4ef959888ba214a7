/-! What a caller may choose about a compilation. -/

namespace StepPlan

/-- The choices that govern the search for clusters. -/
structure Options where
  /-- Clusters with fewer members are discarded. -/
  minClusterSize : Nat
  /-- Look for no clusters at all. -/
  disableClustering : Bool
  deriving DecidableEq

namespace Options

/-- Clusters of three or more, clustering enabled. -/
def standard : Options :=
  ⟨3, false⟩

/-- A cluster of one is plain inline code, so no smaller minimum than two makes sense. -/
def smallestMinimum : Nat := 2

/-- The same choices with the minimum raised to one that makes sense. -/
def normalized (options : Options) : Options :=
  { options with
    minClusterSize :=
      if options.minClusterSize < smallestMinimum then smallestMinimum
      else options.minClusterSize }

end Options

end StepPlan
