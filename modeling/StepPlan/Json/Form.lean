import StepPlan.Ident
import StepPlan.Json.Number
import StepPlan.Tagged

/-! JSON forms. A type with a form can be written as a JSON value and read back. Records are
written as objects; they are read from objects, in which unknown fields are skipped and no
known field may be repeated, or from arrays of their fields in order. Variants are written as
their word, or as an object with their word for its only key.
-/

namespace StepPlan

/-- A type whose values are written as JSON and read back. -/
class JsonForm (α : Type) where
  toJson : α → Json
  ofJson? : Json → Option α

namespace Json

export JsonForm (toJson ofJson?)

/-- A natural number below a limit. -/
def toNatBelow? (limit : Nat) : Json → Option Nat
  | .numeral number => number.toNat?.filter fun n => decide (n < limit)
  | _ => none

/-- A truth value. -/
def toBool? : Json → Option Bool
  | .bool truth => some truth
  | _ => none

/-- The values of a known field, in order. -/
def occurrences (fields : List (Option String × Json)) (name : String) : List Json :=
  fields.filterMap fun field => if field.1 = some name then some field.2 else none

/-- The value of a field that may be missing but not be repeated. -/
def occurrence? (fields : List (Option String × Json)) (name : String)
    : Option (Option Json) :=
  match occurrences fields name with
  | [] => some none
  | [value] => some (some value)
  | _ => none

/-- The values of the named fields. Each may be missing; none may be repeated, and every key
must be readable. An array gives the fields in order, and the missing ones are the last. There
must be no more items than fields, and at least as many as required.
-/
def fields? (names : List String) (required : Nat) : Json → Option (List (Option Json))
  | .object fields =>
      if fields.all fun field => field.1.isSome then names.mapM (occurrence? fields) else none
  | .array items =>
      if required ≤ items.length ∧ items.length ≤ names.length then
        some (items.map some ++ List.replicate (names.length - items.length) none)
      else none
  | _ => none

/-- The values of the named fields. An array must hold all of them. -/
def record? (names : List String) (value : Json) : Option (List (Option Json)) :=
  value.fields? names names.length

/-- The word of a variant and what comes with it. -/
def variant? : Json → Option (String × Option Json)
  | .text content => content.map fun word => (word, none)
  | .object [(key, value)] => key.map fun word => (word, some value)
  | _ => none

/-- A variant with its content. -/
def variant (word : String) (content : Json) : Json :=
  record [(word, content)]

/-- The word of a variant that has no content: alone, or as a key with null. -/
def unitVariant? (value : Json) : Option String :=
  match value.variant? with
  | some (word, none) => some word
  | some (word, some .null) => some word
  | _ => none

/-- The items of an array, each read in the given way. -/
def list? {α : Type} (read : Json → Option α) : Json → Option (List α)
  | .array items => items.mapM read
  | _ => none

/-- A field that must be there. -/
def required? {α : Type} [JsonForm α] (field : Option Json) : Option α :=
  field.bind ofJson?

end Json

open Json

instance : JsonForm Bool where
  toJson := .bool
  ofJson? := toBool?

instance : JsonForm String where
  toJson := .ofString
  ofJson?
    | .text content => content
    | _ => none

instance : JsonForm UInt16 where
  toJson n := .ofNat n.toNat
  ofJson? value := (value.toNatBelow? 0x10000).map UInt16.ofNat

instance : JsonForm UInt32 where
  toJson n := .ofNat n.toNat
  ofJson? value := (value.toNatBelow? 0x100000000).map UInt32.ofNat

instance {kind : IdentKind} : JsonForm (Ident kind) where
  toJson id := toJson id.number
  ofJson? value := (ofJson? value).map Ident.mk

/-- How finite doubles are printed as numerals, and which doubles numerals are read as. All forms
that hold doubles are written and read with it.
-/
class NumberForm where
  print : Binary64 → Numeral
  read? : Numeral → Option Binary64

/-- The fewest digits that determine a double are printed, and the leading digits are read. -/
instance NumberForm.standard : NumberForm where
  print := .ofBinary64
  read? := Numeral.toBinary64?

/-- Doubles that are not finite have no numeral: they are written as null, and null is no
double.
-/
instance [NumberForm] : JsonForm Binary64 where
  toJson x := if x.isFinite then .numeral (NumberForm.print x) else .null
  ofJson?
    | .numeral number => NumberForm.read? number
    | _ => none

instance {α : Type} [JsonForm α] : JsonForm (List α) where
  toJson values := .array (values.map toJson)
  ofJson? := list? ofJson?

/-- What is absent is written as null. -/
instance {α : Type} [JsonForm α] : JsonForm (Option α) where
  toJson
    | some value => toJson value
    | none => .null
  ofJson?
    | .null => some none
    | value => (ofJson? value).map some

/-- A vocabulary is written as its words. -/
@[reducible] def Tagged.form (α : Type) [Tagged α] : JsonForm α where
  toJson value := .ofString (Tagged.tag value)
  ofJson? value := value.unitVariant?.bind Tagged.ofTag?

end StepPlan
