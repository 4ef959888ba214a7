import StepPlan.Json.Value

/-! Writing JSON, either without any blanks or with one item per line. -/

namespace StepPlan.Json

/-- A digit as a character. -/
def digitChar (digit : Nat) : Char :=
  Char.ofNat ('0'.toNat + digit)

/-- A run of digits as text. -/
def digitText (digits : List Nat) : String :=
  String.ofList (digits.map digitChar)

/-- The power of ten of a numeral, with its sign. -/
def exponentText (exponent : Int) : String :=
  "e" ++ (if exponent < 0 then "-" else "+") ++ toString exponent.natAbs

/-- A numeral as text. -/
def numeralText (number : Numeral) : String :=
  (if number.negative then "-" else "") ++ digitText number.whole
    ++ (match number.fraction with
      | some digits => "." ++ digitText digits
      | none => "")
    ++ (match number.exponent with
      | some exponent => exponentText exponent
      | none => "")

/-- A digit of a character escape. -/
def hexDigit (n : Nat) : Char :=
  if n < 10 then Char.ofNat ('0'.toNat + n) else Char.ofNat ('a'.toNat + n - 10)

/-- A character inside quotes. Quotes, backslashes and controls are escaped. -/
def escapeChar (c : Char) : List Char :=
  if c = '"' then ['\\', '"']
  else if c = '\\' then ['\\', '\\']
  else if c = '\n' then ['\\', 'n']
  else if c = '\r' then ['\\', 'r']
  else if c = '\t' then ['\\', 't']
  else if c.toNat = 8 then ['\\', 'b']
  else if c.toNat = 12 then ['\\', 'f']
  else if c.toNat < 32 then
    ['\\', 'u', '0', '0', hexDigit (c.toNat / 16), hexDigit (c.toNat % 16)]
  else [c]

/-- A text in quotes. -/
def quote (s : String) : String :=
  "\"" ++ String.ofList (s.toList.flatMap escapeChar) ++ "\""

/-- A text value; one that cannot be read is written as null. -/
def textText : Option String → String
  | some s => quote s
  | none => "null"

mutual

/-- A value without blanks. -/
def compact : Json → String
  | .null => "null"
  | .bool truth => if truth then "true" else "false"
  | .numeral number => numeralText number
  | .text content => textText content
  | .array items => "[" ++ compactItems items ++ "]"
  | .object fields => "\x7b" ++ compactFields fields ++ "\x7d"

/-- The items of an array without blanks. -/
def compactItems : List Json → String
  | [] => ""
  | [item] => compact item
  | item :: rest => compact item ++ "," ++ compactItems rest

/-- The fields of an object without blanks. -/
def compactFields : List (Option String × Json) → String
  | [] => ""
  | [(key, value)] => textText key ++ ":" ++ compact value
  | (key, value) :: rest => textText key ++ ":" ++ compact value ++ "," ++ compactFields rest

end

/-- A new line at a depth of nesting, two blanks per level. -/
def lineBreak (depth : Nat) : String :=
  "\n" ++ String.ofList (List.replicate (2 * depth) ' ')

mutual

/-- A value at a depth of nesting, with one item or field per line. -/
def indented (depth : Nat) : Json → String
  | .null => "null"
  | .bool truth => if truth then "true" else "false"
  | .numeral number => numeralText number
  | .text content => textText content
  | .array [] => "[]"
  | .array (item :: rest) =>
      "[" ++ lineBreak (depth + 1) ++ indented (depth + 1) item
        ++ indentedItems (depth + 1) rest ++ lineBreak depth ++ "]"
  | .object [] => "\x7b\x7d"
  | .object ((key, value) :: rest) =>
      "\x7b" ++ lineBreak (depth + 1) ++ textText key ++ ": " ++ indented (depth + 1) value
        ++ indentedFields (depth + 1) rest ++ lineBreak depth ++ "\x7d"

/-- The items after the first. -/
def indentedItems (depth : Nat) : List Json → String
  | [] => ""
  | item :: rest =>
      "," ++ lineBreak depth ++ indented depth item ++ indentedItems depth rest

/-- The fields after the first. -/
def indentedFields (depth : Nat) : List (Option String × Json) → String
  | [] => ""
  | (key, value) :: rest =>
      "," ++ lineBreak depth ++ textText key ++ ": " ++ indented depth value
        ++ indentedFields depth rest

end

/-- A value with one item or field per line. -/
def pretty (value : Json) : String :=
  indented 0 value

end StepPlan.Json
