/-! JSON values. Objects keep their fields in order, repeated ones included. Numerals keep their
digits, because what a numeral is worth depends on who reads it. A text is kept apart from its
characters only where an escape names half of a surrogate pair: such a text may be skipped but
not read.
-/

namespace StepPlan

/-- A number as it is written: its sign, the digits before and behind the point, and the power
of ten. Digits are numbers below ten.
-/
structure Numeral where
  negative : Bool
  whole : List Nat
  fraction : Option (List Nat)
  exponent : Option Int
  deriving DecidableEq

/-- A JSON value. -/
inductive Json where
  | null
  | bool (truth : Bool)
  | numeral (number : Numeral)
  /-- A text, absent if an escape in it names half of a surrogate pair. -/
  | text (content : Option String)
  | array (items : List Json)
  | object (fields : List (Option String × Json))

namespace Json

/-- A readable text. -/
def ofString (s : String) : Json :=
  .text (some s)

/-- The decimal digits of a number, the most significant first. -/
def digitsOf (n : Nat) : List Nat :=
  if n < 10 then [n] else digitsOf (n / 10) ++ [n % 10]

/-- The number that digits write. -/
def valueOf (digits : List Nat) : Nat :=
  digits.foldl (fun value digit => value * 10 + digit) 0

/-- A natural number, written without point and exponent. -/
def ofNat (n : Nat) : Json :=
  .numeral ⟨false, digitsOf n, none, none⟩

/-- An object with readable field names. -/
def record (fields : List (String × Json)) : Json :=
  .object (fields.map fun field => (some field.1, field.2))

end Json

end StepPlan
