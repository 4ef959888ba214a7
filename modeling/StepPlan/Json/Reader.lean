import StepPlan.Json.Token

/-! Reading JSON. The values that enclose the place being read are kept on a list of frames, so
the depth of nesting is bounded by nothing but the text.
-/

namespace StepPlan.Json

/-- An array or object that is still open. What it holds so far stands in reverse order. -/
inductive Frame where
  | array (items : List Json)
  /-- An object between two fields. -/
  | object (fields : List (Option String × Json))
  /-- An object whose last key waits for its value. -/
  | field (fields : List (Option String × Json)) (key : Option String)

/-- What may come next. -/
inductive Expected where
  /-- A value. -/
  | value
  /-- A value, or the end of an array just opened. -/
  | item
  /-- A key, or the end of an object just opened. -/
  | firstKey
  /-- A key. -/
  | key
  /-- The colon behind a key. -/
  | colon (key : Option String)
  /-- Whatever may follow a value that is now complete. -/
  | done (value : Json)

/-- Starts a value. -/
def openValue (frames : List Frame) : Token → Option (Expected × List Frame)
  | .null => some (.done .null, frames)
  | .bool truth => some (.done (.bool truth), frames)
  | .numeral number => some (.done (.numeral number), frames)
  | .text content => some (.done (.text content), frames)
  | .openBracket => some (.item, .array [] :: frames)
  | .openBrace => some (.firstKey, .object [] :: frames)
  | _ => none

/-- Goes on after a value: to the next item or field, or to the end of what encloses it. -/
def closeValue (value : Json) : List Frame → Token → Option (Expected × List Frame)
  | .array items :: frames, .comma => some (.value, .array (value :: items) :: frames)
  | .array items :: frames, .closeBracket =>
      some (.done (.array (value :: items).reverse), frames)
  | .field fields key :: frames, .comma =>
      some (.key, .object ((key, value) :: fields) :: frames)
  | .field fields key :: frames, .closeBrace =>
      some (.done (.object ((key, value) :: fields).reverse), frames)
  | _, _ => none

/-- Takes in one token. -/
def step (expected : Expected) (frames : List Frame) (token : Token)
    : Option (Expected × List Frame) :=
  match expected, frames, token with
  | .value, frames, token => openValue frames token
  | .item, .array [] :: frames, .closeBracket => some (.done (.array []), frames)
  | .item, frames, token => openValue frames token
  | .firstKey, .object [] :: frames, .closeBrace => some (.done (.object []), frames)
  | .firstKey, frames, .text key => some (.colon key, frames)
  | .key, frames, .text key => some (.colon key, frames)
  | .colon key, .object fields :: frames, .colon => some (.value, .field fields key :: frames)
  | .done value, frames, token => closeValue value frames token
  | _, _, _ => none

/-- Takes in all tokens. One value must be complete at the end. -/
def readTokens : Expected → List Frame → List Token → Option Json
  | .done value, [], [] => some value
  | _, _, [] => none
  | expected, frames, token :: rest =>
      match step expected frames token with
      | some (expected, frames) => readTokens expected frames rest
      | none => none

/-- The value that a text writes. -/
def parse? (text : String) : Option Json :=
  match Token.ofText? text with
  | some tokens => readTokens .value [] tokens
  | none => none

end StepPlan.Json
