import LiveTemplate.Text.Unprintable

/-!
# Quoted text

Text in double quotes, with a backslash before quotes and backslashes, short
escapes for the usual controls, and the number of every other character that
has no glyph of its own.
-/

namespace LiveTemplate

/-- Lower-case hexadecimal digits. -/
def hexText (number : Nat) : String :=
  String.ofList (Nat.toDigits 16 number)

/-- The number of a character between braces. -/
def numericEscape (c : Char) : String :=
  "\\u\x7b" ++ hexText c.toNat ++ "\x7d"

/-- One character as it stands between `quote` marks. -/
def escapeChar (quote c : Char) : String :=
  if c == quote || c == '\\' then String.ofList ['\\', c]
  else if c == '\x00' then "\\0"
  else if c == '\t' then "\\t"
  else if c == '\r' then "\\r"
  else if c == '\n' then "\\n"
  else if isUnprintable c then numericEscape c
  else String.singleton c

/-- Text in double quotes. -/
def quoted (text : String) : String :=
  "\"" ++ String.join (text.toList.map (escapeChar '"')) ++ "\""

/-- A character in single quotes. -/
def quotedChar (c : Char) : String :=
  "'" ++ escapeChar '\'' c ++ "'"

end LiveTemplate
