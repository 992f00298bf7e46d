import LiveTemplate.Css.Token

/-!
# Why a selector is refused

A fault names what the parser met; pseudo-classes and pseudo-elements that are
well formed but not supported have a fault of their own.  A selector error adds
the text of the whole selector.
-/

namespace LiveTemplate.Selector

open LiveTemplate.Css (Token)

inductive Fault where
  | endOfInput
  | unexpectedToken (token : Token)
  | emptySelector
  | danglingCombinator
  | invalidState
  | expectedNamespace (name : String)
  | classNeedsIdent (token : Token)
  | badValueInAttribute (token : Token)
  | noQualifiedName (token : Token)
  | unexpectedTokenInAttribute (token : Token)
  | invalidQualifiedName (token : Token)
  | expectedBar (token : Token)
  | unexpectedAfterNamespace (token : Token)
  | pseudoElementExpectedIdent (token : Token)
  | unsupportedPseudo (name : String)
  deriving DecidableEq, Repr

/-- A fault about one token. -/
def describeToken (name : String) (token : Token) : String :=
  name ++ "(" ++ token.describe ++ ")"

def Fault.describe : Fault → String
  | endOfInput => "EndOfInput"
  | unexpectedToken token => describeToken "UnexpectedToken" token
  | emptySelector => "EmptySelector"
  | danglingCombinator => "DanglingCombinator"
  | invalidState => "InvalidState"
  | expectedNamespace name => "ExpectedNamespace(" ++ quoted name ++ ")"
  | classNeedsIdent token => describeToken "ClassNeedsIdent" token
  | badValueInAttribute token => describeToken "BadValueInAttr" token
  | noQualifiedName token =>
      describeToken "NoQualifiedNameInAttributeSelector" token
  | unexpectedTokenInAttribute token =>
      describeToken "UnexpectedTokenInAttributeSelector" token
  | invalidQualifiedName token => describeToken "InvalidQualNameInAttr" token
  | expectedBar token => describeToken "ExpectedBarInAttr" token
  | unexpectedAfterNamespace token =>
      describeToken "ExplicitNamespaceUnexpectedToken" token
  | pseudoElementExpectedIdent token =>
      describeToken "PseudoElementExpectedIdent" token
  | unsupportedPseudo name =>
      "UnsupportedPseudoClassOrElement(" ++ quoted name ++ ")"

end LiveTemplate.Selector

namespace LiveTemplate

/-- Why the text of a selector is not accepted. -/
structure SelectorError where
  selector : String
  fault : Selector.Fault
  deriving DecidableEq, Repr

def SelectorError.message (error : SelectorError) : String :=
  match error.fault with
  | .unsupportedPseudo name =>
      "unsupported pseudo-class or pseudo-element `" ++ name ++
        "` in selector `" ++ error.selector ++ "`"
  | fault => "invalid selector `" ++ error.selector ++ "`: " ++ fault.describe

end LiveTemplate
