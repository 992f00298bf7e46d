import LiveTemplate.Css.Lexer

/-!
# Written forms of names and strings

`identText` writes a name so that it is read back as that name, and
`stringText` the content of a double-quoted string.
-/

namespace LiveTemplate.Css

/-- A numeric escape, ended by a space. -/
def hexEscape (c : Char) : String :=
  "\\" ++ hexText c.toNat ++ " "

def isControl (c : Char) : Bool :=
  (1 ≤ c.toNat && c.toNat ≤ 0x1F) || c.toNat == 0x7F

/-- One character inside a name. -/
def nameCharText (c : Char) : String :=
  if c == '\x00' then String.singleton replacement
  else if isNameChar c then String.singleton c
  else if isControl c then hexEscape c
  else String.ofList ['\\', c]

def nameText (name : List Char) : String :=
  String.join (name.map nameCharText)

/-- A name whose first character must not be taken for a number. -/
def leadingText : List Char → String
  | [] => ""
  | c :: rest =>
      (if c.isDigit then hexEscape c else nameCharText c) ++ nameText rest

/-- A name as it is written in a selector. -/
def identText (name : String) : String :=
  match name.toList with
  | [] => ""
  | '-' :: '-' :: rest => "--" ++ nameText rest
  | ['-'] => "\\-"
  | '-' :: rest => "-" ++ leadingText rest
  | chars => leadingText chars

/-- One character inside a string. -/
def stringCharText (c : Char) : String :=
  if c == '"' then "\\\""
  else if c == '\\' then "\\\\"
  else if c == '\x00' then String.singleton replacement
  else if isControl c then hexEscape c
  else String.singleton c

/-- The content of a string between double quotes. -/
def stringText (content : String) : String :=
  String.join (content.toList.map stringCharText)

end LiveTemplate.Css
