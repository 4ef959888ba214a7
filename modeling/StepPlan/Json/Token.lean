import StepPlan.Json.Value

/-! The tokens of JSON text. Blanks between tokens are dropped; anything that starts no token is
an error.
-/

namespace StepPlan.Json

/-- A token: a mark, a word, a numeral or a text. -/
inductive Token where
  | openBrace
  | closeBrace
  | openBracket
  | closeBracket
  | comma
  | colon
  | null
  | bool (truth : Bool)
  | numeral (number : Numeral)
  | text (content : Option String)
  deriving DecidableEq

namespace Token

/-- The blanks that may stand between tokens. -/
def isBlank (c : Char) : Bool :=
  c = ' ' || c = '\n' || c = '\t' || c = '\r'

/-- The token of a mark. -/
def ofMark? (c : Char) : Option Token :=
  if c = '\x7b' then some .openBrace
  else if c = '\x7d' then some .closeBrace
  else if c = '[' then some .openBracket
  else if c = ']' then some .closeBracket
  else if c = ',' then some .comma
  else if c = ':' then some .colon
  else none

/-- What stands between quotes: characters, and 16-bit units named by escapes. -/
inductive Unit16 where
  | char (c : Char)
  | unit (n : Nat)
  deriving DecidableEq

/-- The value of a hexadecimal digit. -/
def hexValue? (c : Char) : Option Nat :=
  if '0' ≤ c ∧ c ≤ '9' then some (c.toNat - '0'.toNat)
  else if 'a' ≤ c ∧ c ≤ 'f' then some (c.toNat - 'a'.toNat + 10)
  else if 'A' ≤ c ∧ c ≤ 'F' then some (c.toNat - 'A'.toNat + 10)
  else none

/-- The value of four hexadecimal digits. -/
def hexUnit? (a b c d : Char) : Option Nat :=
  match hexValue? a, hexValue? b, hexValue? c, hexValue? d with
  | some a, some b, some c, some d => some (((a * 16 + b) * 16 + c) * 16 + d)
  | _, _, _, _ => none

/-- The character named by a one-letter escape. -/
def escape? (c : Char) : Option Char :=
  if c = '"' then some '"'
  else if c = '\\' then some '\\'
  else if c = '/' then some '/'
  else if c = 'b' then some '\x08'
  else if c = 'f' then some '\x0c'
  else if c = 'n' then some '\n'
  else if c = 'r' then some '\r'
  else if c = 't' then some '\t'
  else none

/-- Reads up to the closing quote, after some units that stand in reverse order. Controls must
be escaped.
-/
def scanText : List Unit16 → List Char → Option (List Unit16 × List Char)
  | _, [] => none
  | units, '"' :: rest => some (units.reverse, rest)
  | units, '\\' :: 'u' :: a :: b :: c :: d :: rest =>
      match hexUnit? a b c d with
      | some n => scanText (.unit n :: units) rest
      | none => none
  | units, '\\' :: c :: rest =>
      match escape? c with
      | some escaped => scanText (.char escaped :: units) rest
      | none => none
  | units, c :: rest =>
      if c = '\\' ∨ c.toNat < 32 then none else scanText (.char c :: units) rest

/-- The characters that units stand for. A high surrogate must be followed by a low one. -/
def decodeUnits : List Unit16 → Option (List Char)
  | [] => some []
  | .char c :: rest => (decodeUnits rest).map (c :: ·)
  | .unit high :: .unit low :: rest =>
      if 0xd800 ≤ high ∧ high < 0xdc00 then
        if 0xdc00 ≤ low ∧ low < 0xe000 then
          (decodeUnits rest).map
            (Char.ofNat ((high - 0xd800) * 0x400 + (low - 0xdc00) + 0x10000) :: ·)
        else none
      else if 0xdc00 ≤ high ∧ high < 0xe000 then none
      else (decodeUnits (.unit low :: rest)).map (Char.ofNat high :: ·)
  | .unit n :: rest =>
      if 0xd800 ≤ n ∧ n < 0xe000 then none else (decodeUnits rest).map (Char.ofNat n :: ·)

/-- Splits off the digits in front. -/
def scanDigits (cs : List Char) : List Nat × List Char :=
  let (digits, rest) := cs.span Char.isDigit
  (digits.map fun c => c.toNat - '0'.toNat, rest)

/-- Reads the digits behind a point, of which there must be one. -/
def scanFraction : List Char → Option (Option (List Nat) × List Char)
  | '.' :: cs =>
      match scanDigits cs with
      | ([], _) => none
      | (digits, rest) => some (some digits, rest)
  | cs => some (none, cs)

/-- Reads the sign of a power of ten: whether it is negative. -/
def scanSign : List Char → Bool × List Char
  | '+' :: cs => (false, cs)
  | '-' :: cs => (true, cs)
  | cs => (false, cs)

/-- Reads a power of ten, of which there must be one digit. -/
def scanPower (cs : List Char) : Option (Option Int × List Char) :=
  let (negative, cs) := scanSign cs
  match scanDigits cs with
  | ([], _) => none
  | (digits, rest) =>
      let value : Int := valueOf digits
      some (some (if negative then -value else value), rest)

/-- Reads a power of ten if one follows. -/
def scanExponent : List Char → Option (Option Int × List Char)
  | 'e' :: cs => scanPower cs
  | 'E' :: cs => scanPower cs
  | cs => some (none, cs)

/-- Reads the digits before the point: one zero, or digits that start with none. -/
def scanWhole (cs : List Char) : Option (List Nat × List Char) :=
  match scanDigits cs with
  | ([], _) => none
  | (0 :: _ :: _, _) => none
  | (digits, rest) => some (digits, rest)

/-- Reads a numeral after its sign. -/
def scanMagnitude (negative : Bool) (cs : List Char) : Option (Numeral × List Char) :=
  match scanWhole cs with
  | none => none
  | some (whole, cs) =>
      match scanFraction cs with
      | none => none
      | some (fraction, cs) =>
          match scanExponent cs with
          | none => none
          | some (exponent, rest) => some (⟨negative, whole, fraction, exponent⟩, rest)

/-- Reads a word or a numeral. -/
def scanScalar : List Char → Option (Token × List Char)
  | 't' :: 'r' :: 'u' :: 'e' :: rest => some (.bool true, rest)
  | 'f' :: 'a' :: 'l' :: 's' :: 'e' :: rest => some (.bool false, rest)
  | 'n' :: 'u' :: 'l' :: 'l' :: rest => some (.null, rest)
  | '-' :: cs => (scanMagnitude true cs).map fun read => (.numeral read.1, read.2)
  | cs => (scanMagnitude false cs).map fun read => (.numeral read.1, read.2)

/-- Reads one token that does not start with a blank. -/
def scan : List Char → Option (Token × List Char)
  | [] => none
  | c :: rest =>
      match ofMark? c with
      | some token => some (token, rest)
      | none =>
          if c = '"' then
            (scanText [] rest).map fun read =>
              (.text ((decodeUnits read.1).map String.ofList), read.2)
          else scanScalar (c :: rest)

/-- Reads all tokens, after some that stand in reverse order. Every step drops a character, so
the length of the text bounds the steps.
-/
def scanAll : (steps : Nat) → List Token → List Char → Option (List Token)
  | _, tokens, [] => some tokens.reverse
  | 0, _, _ :: _ => none
  | steps + 1, tokens, c :: rest =>
      if isBlank c then scanAll steps tokens rest
      else
        match scan (c :: rest) with
        | none => none
        | some (token, rest) => scanAll steps (token :: tokens) rest

/-- The tokens of a text. -/
def ofText? (text : String) : Option (List Token) :=
  scanAll text.toList.length [] text.toList

end Token

end StepPlan.Json
