import LiveTemplate.Css.Ident
import LiveTemplate.Selector.Specificity
import LiveTemplate.Text.Quoted

/-!
# Written form of selectors

The canonical text of a selector, and the description of a list with the weight
of each alternative.
-/

namespace LiveTemplate.Selector

def Combinator.text : Combinator → String
  | .child => " > "
  | .descendant => " "
  | .nextSibling => " + "
  | .laterSibling => " ~ "

def Comparison.text : Comparison → String
  | .equal => "="
  | .includes => "~="
  | .dashMatch => "|="
  | .startsWith => "^="
  | .substring => "*="
  | .endsWith => "$="

def CaseRule.text : CaseRule → String
  | .exact => ""
  | .exactByFlag => " s"
  | .ignoredByFlag => " i"
  | .ignoredInHtml => ""

def ValueTest.print (test : ValueTest) : String :=
  test.comparison.text ++ "\"" ++ Css.stringText test.expected ++ "\"" ++
    test.caseRule.text

def AttributeTest.print (required : AttributeTest) : String :=
  "[" ++ (if required.anyNamespace then "*|" else "") ++
    Css.identText required.name ++
    (required.test.map ValueTest.print).getD "" ++ "]"

/-- An integer with its sign, also when positive. -/
def signedText (number : Int) : String :=
  if number < 0 then toString number else "+" ++ toString number

/-- The formula `step * n + offset`. -/
def formulaText (step offset : Int) : String :=
  let multiple :=
    if step = 1 then "n" else if step = -1 then "-n" else toString step ++ "n"
  if step = 0 then toString offset
  else if offset = 0 then multiple
  else multiple ++ signedText offset

def Counting.text (counting : Counting) : String :=
  ":nth-" ++ (if counting.fromEnd then "last-" else "") ++
    (if counting.sameType then "of-type" else "child")

/-- Whether a part only says that any type will do. -/
def Simple.isUniversal : Simple → Bool
  | .universal => true
  | _ => false

/-- Whether a part only speaks of the namespace. -/
def Simple.isNamespace : Simple → Bool
  | .noNamespace => true
  | _ => false

/-- The text of a compound from the texts of its parts.  The universal type is
left out next to other parts, unless a namespace stands before it. -/
def compoundText (parts : List (Simple × String)) : String :=
  let written :=
    if parts.head?.any (fun part => part.1.isNamespace) || parts.length = 1 then
      parts
    else parts.filter (fun part => !part.1.isUniversal)
  String.join (written.map Prod.snd)

/-- Alternatives are separated by commas. -/
def listText (selectors : List String) : String :=
  String.intercalate ", " selectors

mutual

def Simple.print : Simple → String
  | .universal => "*"
  | .noNamespace => "|"
  | .tag name => Css.identText name
  | .id name => "#" ++ Css.identText name
  | .className name => "." ++ Css.identText name
  | .withAttribute test => test.print
  | .root => ":root"
  | .empty => ":empty"
  | .scope => ":scope"
  | .firstChild => ":first-child"
  | .lastChild => ":last-child"
  | .onlyChild => ":only-child"
  | .firstOfType => ":first-of-type"
  | .lastOfType => ":last-of-type"
  | .onlyOfType => ":only-of-type"
  | .position counting step offset =>
      counting.text ++ "(" ++ formulaText step offset ++ ")"
  | .negation selectors => ":not(" ++ listText (printAll selectors) ++ ")"
  | .anyOf selectors => ":is(" ++ listText (printAll selectors) ++ ")"
  | .anyWithoutWeight selectors =>
      ":where(" ++ listText (printAll selectors) ++ ")"
  | .host selector => ":host(" ++ selector.print ++ ")"

/-- Each part with its text. -/
def printParts : List Simple → List (Simple × String)
  | [] => []
  | part :: parts => (part, part.print) :: printParts parts

def Complex.print : Complex → String
  | .compound last => compoundText (printParts last)
  | .combined left combinator last =>
      left.print ++ combinator.text ++ compoundText (printParts last)

def printAll : List Complex → List String
  | [] => []
  | selector :: selectors => selector.print :: printAll selectors

end

/-- A selector with its weight. -/
def Complex.describe (selector : Complex) : String :=
  "Selector(" ++ selector.print ++ ", specificity = 0x" ++
    hexText selector.weight.pack ++ ")"

def SelectorList.describe (list : SelectorList) : String :=
  "SelectorList \x7b source: " ++ quoted list.source ++
    ", selectors: SelectorList([" ++
    listText (list.selectors.map Complex.describe) ++ "]) \x7d"

end LiveTemplate.Selector
