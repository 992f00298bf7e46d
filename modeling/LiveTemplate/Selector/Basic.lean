import LiveTemplate.Css.Token

/-!
# Selectors

A complex selector is a chain of compound selectors with combinators between
them, read from left to right and tested from right to left; so the chain is
kept with its last compound outermost.
-/

namespace LiveTemplate.Selector

inductive Combinator where
  | child
  | descendant
  | nextSibling
  | laterSibling
  deriving DecidableEq, Repr

/-- How the value of an attribute is compared with the text in a selector. -/
inductive Comparison where
  | equal
  | includes
  | dashMatch
  | startsWith
  | substring
  | endsWith
  deriving DecidableEq, Repr

/-- Which letters an attribute test takes for the same: as the attribute's name
has it, or as a flag in the selector says. -/
inductive CaseRule where
  | exact
  | exactByFlag
  | ignoredByFlag
  | ignoredInHtml
  deriving DecidableEq, Repr

/-- A test for a value of an attribute. -/
structure ValueTest where
  comparison : Comparison
  expected : String
  caseRule : CaseRule
  deriving DecidableEq, Repr

/-- A test for an attribute; without `test` it only has to be there. -/
structure AttributeTest where
  anyNamespace : Bool
  name : String
  test : Option ValueTest
  deriving DecidableEq, Repr

/-- Which siblings a position is counted among, and from which end. -/
structure Counting where
  sameType : Bool
  fromEnd : Bool
  deriving DecidableEq, Repr

mutual

inductive Simple where
  | universal
  | noNamespace
  | tag (name : String)
  | id (name : String)
  | className (name : String)
  | withAttribute (test : AttributeTest)
  | root
  | empty
  | scope
  | firstChild
  | lastChild
  | onlyChild
  | firstOfType
  | lastOfType
  | onlyOfType
  | position (counting : Counting) (step offset : Int)
  | negation (selectors : List Complex)
  | anyOf (selectors : List Complex)
  | anyWithoutWeight (selectors : List Complex)
  | host (selector : Complex)

inductive Complex where
  | compound (last : List Simple)
  | combined (left : Complex) (combinator : Combinator) (last : List Simple)

end

/-- Alternatives, and the text they were read from. -/
structure SelectorList where
  source : String
  selectors : List Complex

end LiveTemplate.Selector
