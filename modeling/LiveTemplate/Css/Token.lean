import LiveTemplate.Number.Notation
import LiveTemplate.Text.Quoted

/-!
# Tokens of style sheets

The tokens a style sheet, a style attribute or a selector consists of, and the
text by which an error names one.
-/

namespace LiveTemplate.Css

/-- The numeric part of a token: the bits of its single-precision value, and
its integer if it was written without fraction and exponent. -/
structure Numeral where
  signed : Bool
  bits : UInt32
  integer : Option Int
  deriving DecidableEq, Repr

inductive Token where
  | ident (name : String)
  | atKeyword (name : String)
  | hash (name : String)
  | idHash (name : String)
  | quotedString (content : String)
  | unquotedUrl (content : String)
  | delim (symbol : Char)
  | number (numeral : Numeral)
  | percentage (numeral : Numeral)
  | dimension (numeral : Numeral) (unit : String)
  | blank (content : String)
  | comment (content : String)
  | colon
  | semicolon
  | comma
  | includeMatch
  | dashMatch
  | startMatch
  | endMatch
  | substringMatch
  | commentOpen
  | commentClose
  | function (name : String)
  | parenOpen
  | bracketOpen
  | braceOpen
  | badUrl (content : String)
  | badString (content : String)
  | parenClose
  | bracketClose
  | braceClose
  deriving DecidableEq, Repr

/-- The fields of a numeral, its value under the given name. -/
def Numeral.describe (numeral : Numeral) (valueName : String) : String :=
  let integer :=
    match numeral.integer with
    | some integer => "Some(" ++ toString integer ++ ")"
    | none => "None"
  "has_sign: " ++ (if numeral.signed then "true" else "false") ++ ", " ++
    valueName ++ ": " ++ detailedSingle numeral.bits ++ ", int_value: " ++
    integer

namespace Token

/-- A name applied to one quoted text. -/
def describeText (name content : String) : String :=
  name ++ "(" ++ quoted content ++ ")"

/-- The text by which an error names a token. -/
def describe : Token → String
  | ident name => describeText "Ident" name
  | atKeyword name => describeText "AtKeyword" name
  | hash name => describeText "Hash" name
  | idHash name => describeText "IDHash" name
  | quotedString content => describeText "QuotedString" content
  | unquotedUrl content => describeText "UnquotedUrl" content
  | delim symbol => "Delim(" ++ quotedChar symbol ++ ")"
  | number numeral => "Number \x7b " ++ numeral.describe "value" ++ " \x7d"
  | percentage numeral =>
      "Percentage \x7b " ++ numeral.describe "unit_value" ++ " \x7d"
  | dimension numeral unit =>
      "Dimension \x7b " ++ numeral.describe "value" ++ ", unit: " ++
        quoted unit ++ " \x7d"
  | blank content => describeText "WhiteSpace" content
  | comment content => describeText "Comment" content
  | colon => "Colon"
  | semicolon => "Semicolon"
  | comma => "Comma"
  | includeMatch => "IncludeMatch"
  | dashMatch => "DashMatch"
  | startMatch => "PrefixMatch"
  | endMatch => "SuffixMatch"
  | substringMatch => "SubstringMatch"
  | commentOpen => "CDO"
  | commentClose => "CDC"
  | function name => describeText "Function" name
  | parenOpen => "ParenthesisBlock"
  | bracketOpen => "SquareBracketBlock"
  | braceOpen => "CurlyBracketBlock"
  | badUrl content => describeText "BadUrl" content
  | badString content => describeText "BadString" content
  | parenClose => "CloseParenthesis"
  | bracketClose => "CloseSquareBracket"
  | braceClose => "CloseCurlyBracket"

/-- Whether a token is white space or a comment. -/
def isFiller : Token → Bool
  | blank _ => true
  | comment _ => true
  | _ => false

/-- The token that ends the block that a token begins. -/
def closer? : Token → Option Token
  | function _ => some parenClose
  | parenOpen => some parenClose
  | bracketOpen => some bracketClose
  | braceOpen => some braceClose
  | _ => none

end Token

/-- A token together with the text it was read from. -/
structure Lexeme where
  token : Token
  source : String
  deriving DecidableEq, Repr

end LiveTemplate.Css
