/-! Finite vocabularies whose values are written as words. The words are the exchange form
of the values, so reading a word is a search in the list of all values.
-/

namespace StepPlan

/-- A finite type with a list of all its values and a word for each of them. -/
class Tagged (α : Type) where
  /-- Every value, in the order of declaration. -/
  all : List α
  /-- The word that stands for a value. -/
  tag : α → String

namespace Tagged

variable {α : Type} [Tagged α]

/-- The first value that is written as the given word. -/
def ofTag? (word : String) : Option α :=
  (all : List α).find? fun value => tag value == word

end Tagged

end StepPlan
