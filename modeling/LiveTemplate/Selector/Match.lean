import LiveTemplate.Selector.Parser
import LiveTemplate.Text.Blank

/-!
# Matching selectors

Matching looks at a tree through an `ElementView`: the names and attributes of
an element and the elements around it, nearest first.  A chain is tested from
its right end; a combinator offers the elements on which the rest may match.
No tree has a shadow host, so `:host` never holds.

A failure tells how far back it reaches.  Siblings have the same ancestors, and
an ancestor has no ancestors that the elements below it do not have; so where
nothing is left on one candidate, most of the others need not be tried, and a
chain is matched in polynomial time.
-/

namespace LiveTemplate.Selector

/-- The namespace of HTML elements. -/
def htmlNamespace : String := "http://www.w3.org/1999/xhtml"

/-- What a selector can see of the elements of a tree. -/
structure ElementView (α : Type) where
  tag : α → String
  namespaceOf : α → String
  attributeOf : α → String → Option String
  ancestors : α → List α
  preceding : α → List α
  following : α → List α
  isEmpty : α → Bool

/-- Whether letters are told apart, given the kind of element. -/
def CaseRule.ignoresCase (isHtml : Bool) : CaseRule → Bool
  | .exact => false
  | .exactByFlag => false
  | .ignoredByFlag => true
  | .ignoredInHtml => isHtml

/-- Whether one list of characters occurs within another. -/
def occursIn (needle : List Char) : List Char → Bool
  | [] => needle.isEmpty
  | c :: rest => needle.isPrefixOf (c :: rest) || occursIn needle rest

/-- The parts of a text between ASCII blanks, empty ones included. -/
def blankSeparated : List Char → List (List Char)
  | [] => [[]]
  | c :: rest =>
      match blankSeparated rest with
      | [] => [[c]]
      | part :: parts =>
          if isAsciiBlank c then [] :: part :: parts
          else (c :: part) :: parts

/-- Compare an attribute with the expected text.  Words that are empty or hold
blanks are never found, nor are empty parts. -/
def Comparison.holds (comparison : Comparison) (expected actual : List Char) :
    Bool :=
  match comparison with
  | .equal => actual == expected
  | .includes =>
      !expected.isEmpty && !expected.any isAsciiBlank &&
        (blankSeparated actual).contains expected
  | .dashMatch =>
      actual == expected || (expected ++ ['-']).isPrefixOf actual
  | .startsWith => !expected.isEmpty && expected.isPrefixOf actual
  | .substring => !expected.isEmpty && occursIn expected actual
  | .endsWith => !expected.isEmpty && expected.isSuffixOf actual

def ValueTest.holds (test : ValueTest) (isHtml : Bool) (actual : String) :
    Bool :=
  let fold (text : String) : List Char :=
    if test.caseRule.ignoresCase isHtml then text.toList.map Char.toLower
    else text.toList
  test.comparison.holds (fold test.expected) (fold actual)

/-- Whether some non-negative multiple of `step` plus `offset` is `index`.
The difference must fit 32 bits. -/
def isPosition (step offset index : Int) : Bool :=
  let difference := index - offset
  if difference > 2147483647 then false
  else if step = 0 then difference == 0
  else difference.tdiv step ≥ 0 && step * difference.tdiv step == difference

namespace ElementView

variable {α : Type} (view : ElementView α)

def isHtml (element : α) : Bool :=
  view.namespaceOf element == htmlNamespace

/-- On HTML elements names are compared in lower case. -/
def nameFor (element : α) (name : String) : String :=
  if view.isHtml element then name.toLower else name

def sameType (left right : α) : Bool :=
  view.tag left == view.tag right &&
    view.namespaceOf left == view.namespaceOf right

def attributeHolds (element : α) (required : AttributeTest) : Bool :=
  (view.attributeOf element (view.nameFor element required.name)).any
    fun actual =>
      match required.test with
      | none => true
      | some test => test.holds (view.isHtml element) actual

/-- The siblings on one side that a position is counted among. -/
def counted (element : α) (counting : Counting) : List α :=
  let side :=
    if counting.fromEnd then view.following element
    else view.preceding element
  if counting.sameType then side.filter (view.sameType element) else side

/-- The place of an element among its siblings, from one. -/
def place (element : α) (counting : Counting) : Int :=
  (view.counted element counting).length + 1

def isFirst (element : α) (counting : Counting) : Bool :=
  (view.counted element counting).isEmpty

/-- Where the rest of a chain may match. -/
def candidates (element : α) : Combinator → List α
  | .child => (view.ancestors element).take 1
  | .descendant => view.ancestors element
  | .nextSibling => (view.preceding element).take 1
  | .laterSibling => view.preceding element

end ElementView

/-- What comes of matching a chain at an element.  After a `mismatch` any other
candidate may do, after `noSibling` only one further up the tree, and after
`nowhere` none. -/
inductive Outcome where
  | found
  | mismatch
  | noSibling
  | nowhere
  deriving DecidableEq, Repr

/-- What it means that there are no more candidates. -/
def Combinator.exhausted : Combinator → Outcome
  | .child => .nowhere
  | .descendant => .nowhere
  | .nextSibling => .noSibling
  | .laterSibling => .noSibling

/-- Try candidates in order, as long as there is hope. -/
def Combinator.search {α : Type} (combinator : Combinator)
    (attempt : α → Outcome) : List α → Outcome
  | [] => combinator.exhausted
  | candidate :: rest =>
      match attempt candidate, combinator with
      | .found, _ => .found
      | .nowhere, _ => .nowhere
      | failure, .nextSibling => failure
      | _, .child => .noSibling
      | .noSibling, .laterSibling => .noSibling
      | _, _ => combinator.search attempt rest

mutual

def Simple.holds {α : Type} (view : ElementView α) :
    Simple → α → Bool
  | .universal, _ => true
  | .noNamespace, element => view.namespaceOf element == ""
  | .tag name, element => view.tag element == view.nameFor element name
  | .id name, element => view.attributeOf element "id" == some name
  | .className name, element =>
      (view.attributeOf element "class").any fun classes =>
        (asciiWords classes).contains name
  | .withAttribute test, element => view.attributeHolds element test
  | .root, element => (view.ancestors element).isEmpty
  | .scope, element => (view.ancestors element).isEmpty
  | .empty, element => view.isEmpty element
  | .firstChild, element => view.isFirst element ⟨false, false⟩
  | .lastChild, element => view.isFirst element ⟨false, true⟩
  | .onlyChild, element =>
      view.isFirst element ⟨false, false⟩ && view.isFirst element ⟨false, true⟩
  | .firstOfType, element => view.isFirst element ⟨true, false⟩
  | .lastOfType, element => view.isFirst element ⟨true, true⟩
  | .onlyOfType, element =>
      view.isFirst element ⟨true, false⟩ && view.isFirst element ⟨true, true⟩
  | .position counting step offset, element =>
      isPosition step offset (view.place element counting)
  | .negation selectors, element => !anyHolds view selectors element
  | .anyOf selectors, element => anyHolds view selectors element
  | .anyWithoutWeight selectors, element => anyHolds view selectors element
  | .host _, _ => false

def allHold {α : Type} (view : ElementView α) : List Simple → α → Bool
  | [], _ => true
  | part :: parts, element =>
      part.holds view element && allHold view parts element

/-- Match a chain at an element. -/
def Complex.attempt {α : Type} (view : ElementView α) :
    Complex → α → Outcome
  | .compound last, element =>
      if allHold view last element then .found else .mismatch
  | .combined left combinator last, element =>
      if allHold view last element then
        combinator.search (left.attempt view)
          (view.candidates element combinator)
      else .mismatch

def anyHolds {α : Type} (view : ElementView α) :
    List Complex → α → Bool
  | [], _ => false
  | selector :: selectors, element =>
      selector.attempt view element == .found ||
        anyHolds view selectors element

end

/-- Whether an element matches one of the alternatives. -/
def SelectorList.holds {α : Type} (list : SelectorList) (view : ElementView α)
    (element : α) : Bool :=
  anyHolds view list.selectors element

end LiveTemplate.Selector
