import StepPlan.Text.Combining
import StepPlan.Text.Ignorable
import StepPlan.Text.Unprintable

/-! Quoted text for messages. Quotes and backslashes are escaped, and so are characters that
would not show for themselves: those without a glyph, those that show nothing by default and
those that combine with the character before them.
-/

namespace StepPlan.Text

/-- A number in lower case hexadecimal digits. -/
def hex (n : Nat) : String :=
  String.ofList (Nat.toDigits 16 n)

/-- Whether a character would not show for itself inside quotes. -/
def isHidden (c : Char) : Bool :=
  isCombining c || isIgnorable c || isUnprintable c

/-- A character as it stands inside quotes. -/
def quoteChar (c : Char) : String :=
  if c = '"' then "\\\""
  else if c = '\\' then "\\\\"
  else if c = '\n' then "\\n"
  else if c = '\t' then "\\t"
  else if c = '\r' then "\\r"
  else if c.toNat = 0 then "\\0"
  else if isHidden c then "\\u\x7b" ++ hex c.toNat ++ "\x7d"
  else String.singleton c

/-- Text in quotes. -/
def quote (s : String) : String :=
  "\"" ++ String.join (s.toList.map quoteChar) ++ "\""

/-- A list of quoted texts in brackets. -/
def quoteList (texts : List String) : String :=
  "[" ++ ", ".intercalate (texts.map quote) ++ "]"

end StepPlan.Text
