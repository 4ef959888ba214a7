/-! Numbers that name the parts of a compilation: states, variables, custom operators,
random draws and clusters. The kind of thing named is part of the type, so a state is never
taken for a cluster, while order and positions are stated once for every kind.
-/

namespace StepPlan

/-- The kinds of things that carry a number. -/
inductive IdentKind where
  | state
  | var
  | operator
  | draw
  | cluster
  deriving DecidableEq

/-- A 32-bit number that names one thing of the given kind. -/
structure Ident (kind : IdentKind) where
  number : UInt32
  deriving DecidableEq

/-- A state: one quantity that a step computes. -/
abbrev StateId := Ident .state

/-- A variable of the model. -/
abbrev VarId := Ident .var

/-- A custom operator instance, such as a delay line or a lookup table. -/
abbrev OperatorId := Ident .operator

/-- A random draw owned by the model. -/
abbrev DrawId := Ident .draw

/-- A cluster of structurally equal formulas. -/
abbrev ClusterId := Ident .cluster

namespace Ident

variable {kind : IdentKind}

/-- The position that an identifier names. -/
def index (id : Ident kind) : Nat :=
  id.number.toNat

/-- The identifier of a position. Positions are taken modulo `2 ^ 32`. -/
def ofIndex (position : Nat) : Ident kind :=
  ⟨UInt32.ofNat position⟩

/-- Identifiers are ordered by the positions they name. -/
instance : LE (Ident kind) where
  le first second := first.index ≤ second.index

instance : LT (Ident kind) where
  lt first second := first.index < second.index

instance (first second : Ident kind) : Decidable (first ≤ second) :=
  inferInstanceAs (Decidable (first.index ≤ second.index))

instance (first second : Ident kind) : Decidable (first < second) :=
  inferInstanceAs (Decidable (first.index < second.index))

/-- An identifier in decimal. -/
def text (id : Ident kind) : String :=
  toString id.index

/-- An identifier is determined by its position, because the position is its number. -/
theorem index_inj {first second : Ident kind}
    : first.index = second.index ↔ first = second := by
  constructor
  · intro same
    cases first
    cases second
    exact congrArg Ident.mk (UInt32.toNat_inj.mp same)
  · exact congrArg index

/-- The position of an identifier made from a position below `2 ^ 32` is that position. -/
theorem index_ofIndex {position : Nat} (small : position < 0x100000000)
    : (ofIndex position : Ident kind).index = position := by
  simpa [index, ofIndex] using Nat.mod_eq_of_lt small

/-- Reading the position of an identifier and naming it again changes nothing. -/
theorem ofIndex_index (id : Ident kind) : ofIndex id.index = id := by
  cases id
  simp [index, ofIndex]

end Ident

end StepPlan
