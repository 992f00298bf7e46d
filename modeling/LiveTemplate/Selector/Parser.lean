import LiveTemplate.Css.Component
import LiveTemplate.Selector.Basic
import LiveTemplate.Selector.Fault

/-!
# Reading selectors

A parser consumes components and either returns a result or a fault.  The
alternatives of a list are read separately, between commas; a selector inside
a functional pseudo-class is read from the content of its block.
-/

namespace LiveTemplate.Selector

open LiveTemplate.Css (Token Component)

/-- A parser keeps the components that are left. -/
abbrev Parse (α : Type) := StateT (List Component) (Except Fault) α

/-- Take the next component that is not a comment. -/
def takeAny? : Parse (Option Component) := do
  let isComment (component : Component) : Bool :=
    component.isFiller && !component.isBlank
  match (← get).dropWhile isComment with
  | [] =>
      set ([] : List Component)
      return none
  | component :: rest =>
      set rest
      return some component

/-- Take the next component that is neither white space nor a comment. -/
def take? : Parse (Option Component) := do
  modify (List.dropWhile Component.isFiller)
  takeAny?

def fail {α : Type} (fault : Fault) : Parse α :=
  throw fault

/-- Take the next component that is not a comment; there must be one. -/
def takeAny : Parse Component := do
  match ← takeAny? with
  | some component => return component
  | none => fail .endOfInput

/-- Take the next component past white space; there must be one. -/
def take : Parse Component := do
  match ← take? with
  | some component => return component
  | none => fail .endOfInput

/-- Run a parser on all of the given components. -/
def entirely {α : Type} (parser : Parse α) (components : List Component) :
    Except Fault α := do
  let (result, rest) ← parser.run components
  match rest.dropWhile Component.isFiller with
  | [] => return result
  | component :: _ => throw (.unexpectedToken component.token)

/-- The namespace in front of a name. -/
inductive NamePrefix where
  | implicit
  | any
  | none
  deriving DecidableEq

/-- A name with its namespace; without a name it is the universal one. -/
structure QualifiedName where
  namePrefix : NamePrefix
  name : Option String

/-- Read what follows the bar after a namespace. -/
def afterBar (inAttribute : Bool) (namePrefix : NamePrefix) :
    Parse QualifiedName := do
  let token := (← takeAny).token
  match token with
  | .ident name => return ⟨namePrefix, some name⟩
  | _ =>
      if inAttribute then fail (.invalidQualifiedName token)
      else if token = .delim '*' then return ⟨namePrefix, none⟩
      else fail (.unexpectedAfterNamespace token)

/-- Read a name; if none begins here, tell which token does. -/
def qualifiedName (inAttribute : Bool) :
    Parse (Except Token QualifiedName) := do
  let start ← get
  let first := (← takeAny).token
  let afterFirst ← get
  match first with
  | .ident name =>
      match ← takeAny? with
      | some next =>
          if next.token = .delim '|' then fail (.expectedNamespace name)
      | none => pure ()
      set afterFirst
      return .ok ⟨.implicit, some name⟩
  | .delim '*' =>
      match ← takeAny? with
      | some next =>
          if next.token = .delim '|' then
            return .ok (← afterBar inAttribute .any)
          else if inAttribute then fail (.expectedBar next.token)
      | none => if inAttribute then fail .endOfInput
      set afterFirst
      return .ok ⟨.implicit, none⟩
  | .delim '|' => return .ok (← afterBar inAttribute .none)
  | token =>
      set start
      return .error token

/-- Read a type selector, if there is one. -/
def typeSelector : Parse (List Simple) := do
  let components ← get
  match (qualifiedName false).run components with
  | .error .endOfInput =>
      set ([] : List Component)
      return []
  | .error fault => fail fault
  | .ok (.error _, rest) =>
      set rest
      return []
  | .ok (.ok found, rest) =>
      set rest
      let namespacePart :=
        if found.namePrefix = .none then [Simple.noNamespace] else []
      let namePart :=
        match found.name with
        | some name => Simple.tag name
        | none => Simple.universal
      return namespacePart ++ [namePart]

/-- The attributes whose values are compared without case on HTML elements. -/
def caseInsensitiveAttributes : List String :=
  ["accept", "accept-charset", "align", "alink", "axis", "bgcolor", "charset",
    "checked", "clear", "codetype", "color", "compact", "declare", "defer",
    "dir", "direction", "disabled", "enctype", "face", "frame", "hreflang",
    "http-equiv", "lang", "language", "link", "media", "method", "multiple",
    "nohref", "noresize", "noshade", "nowrap", "readonly", "rel", "rev",
    "rules", "scope", "scrolling", "selected", "shape", "target", "text",
    "type", "valign", "valuetype", "vlink"]

/-- The comparison that a token between name and value stands for. -/
def comparison? : Token → Option Comparison
  | .delim '=' => some .equal
  | .includeMatch => some .includes
  | .dashMatch => some .dashMatch
  | .startMatch => some .startsWith
  | .substringMatch => some .substring
  | .endMatch => some .endsWith
  | _ => none

/-- Read the flag after the value of an attribute. -/
def caseRule (anyNamespace : Bool) (name : String) : Parse CaseRule := do
  match ← take? with
  | none =>
      if !anyNamespace && caseInsensitiveAttributes.contains name.toLower then
        return .ignoredInHtml
      else return .exact
  | some component =>
      match component.token with
      | .ident flag =>
          if flag.toLower == "i" then return .ignoredByFlag
          else if flag.toLower == "s" then return .exactByFlag
          else fail (.unexpectedToken component.token)
      | token => fail (.unexpectedToken token)

/-- Read the content of an attribute selector. -/
def attributeTest : Parse AttributeTest := do
  modify (List.dropWhile Component.isFiller)
  match ← qualifiedName true with
  | .error token => fail (.noQualifiedName token)
  | .ok found =>
      let name := found.name.getD ""
      let anyNamespace := found.namePrefix = .any
      match ← take? with
      | none => return ⟨anyNamespace, name, none⟩
      | some operator =>
          match comparison? operator.token with
          | none => fail (.unexpectedTokenInAttribute operator.token)
          | some comparison =>
              let expected ←
                match (← take).token with
                | .ident text => pure text
                | .quotedString text => pure text
                | token => fail (.badValueInAttribute token)
              let rule ← caseRule anyNamespace name
              return ⟨anyNamespace, name, some ⟨comparison, expected, rule⟩⟩

/-- Read a number without a sign, and negate it on demand. -/
def unsignedOffset (negative : Bool) : Parse Int := do
  match (← take).token with
  | .number ⟨false, _, some offset⟩ =>
      return if negative then -offset else offset
  | token => fail (.unexpectedToken token)

/-- Read the offset after the step of a position formula. -/
def signedOffset : Parse Int := do
  let start ← get
  match (← take?).map Component.token with
  | some (.delim '+') => unsignedOffset false
  | some (.delim '-') => unsignedOffset true
  | some (.number ⟨true, _, some offset⟩) => return offset
  | _ =>
      set start
      return 0

/-- The offset in a name of the form `n-3`. -/
def dashDigits? (name : List Char) : Option Int :=
  match name with
  | n :: '-' :: digits =>
      if n.toLower == 'n' && !digits.isEmpty && digits.all Char.isDigit then
        let number : Nat :=
          digits.foldl (fun sum c => sum * 10 + (c.toNat - 48)) 0
        some (Css.clampInt32 (-(number : Int)))
      else none
  | _ => none

/-- Read the rest of a formula whose step is followed by `name`. -/
def formulaAfterStep (step : Int) (name : String) (token : Token) :
    Parse (Int × Int) := do
  if name.toLower == "n" then return (step, ← signedOffset)
  else if name.toLower == "n-" then return (step, ← unsignedOffset true)
  else
    match dashDigits? name.toList with
    | some offset => return (step, offset)
    | none => fail (.unexpectedToken token)

/-- Read a position formula: `odd`, `even`, a number, or a multiple of `n`
with an offset. -/
def positionFormula : Parse (Int × Int) := do
  match (← take).token with
  | .number ⟨_, _, some offset⟩ => return (0, offset)
  | .dimension ⟨_, _, some step⟩ unit =>
      formulaAfterStep step unit (.ident unit)
  | .ident name =>
      if name.toLower == "even" then return (2, 0)
      else if name.toLower == "odd" then return (2, 1)
      else
        match name.toList with
        | '-' :: rest => formulaAfterStep (-1) (String.ofList rest) (.ident name)
        | _ => formulaAfterStep 1 name (.ident name)
  | .delim '+' =>
      match (← takeAny).token with
      | .ident name => formulaAfterStep 1 name (.ident name)
      | token => fail (.unexpectedToken token)
  | token => fail (.unexpectedToken token)

/-- The names that denote a pseudo-element even after a single colon. -/
def isLegacyPseudoElement (name : String) : Bool :=
  ["before", "after", "first-line", "first-letter"].contains name.toLower

/-- The pseudo-classes without an argument. -/
def pseudoClass? (name : String) : Option Simple :=
  match name.toLower with
  | "first-child" => some .firstChild
  | "last-child" => some .lastChild
  | "only-child" => some .onlyChild
  | "root" => some .root
  | "empty" => some .empty
  | "scope" => some .scope
  | "first-of-type" => some .firstOfType
  | "last-of-type" => some .lastOfType
  | "only-of-type" => some .onlyOfType
  | _ => none

/-- The pseudo-classes that take a position formula. -/
def counting? (name : String) : Option Counting :=
  match name.toLower with
  | "nth-child" => some ⟨false, false⟩
  | "nth-of-type" => some ⟨true, false⟩
  | "nth-last-child" => some ⟨false, true⟩
  | "nth-last-of-type" => some ⟨true, true⟩
  | _ => none

/-- Where a selector stands: inside a functional pseudo-class pseudo-elements
are not even looked up, and inside `:host` there are no combinators either. -/
structure Place where
  inPseudoClass : Bool
  inHost : Bool
  deriving DecidableEq, Repr

/-- How the selectors inside a functional pseudo-class are read. -/
abbrev Nested := Place → Parse Complex

/-- Read alternatives in order.  The first fault refuses the list, unless the
list is forgiving: then a faulty alternative is left out. -/
def alternatives (parser : Parse Complex) (forgiving : Bool) :
    List (List Component) → Except Fault (List Complex)
  | [] => return []
  | segment :: segments => do
      match entirely parser segment with
      | .ok selector =>
          return selector :: (← alternatives parser forgiving segments)
      | .error fault =>
          if forgiving then alternatives parser forgiving segments
          else throw fault

/-- Read the alternatives between commas. -/
def listOf (parser : Parse Complex) (forgiving : Bool)
    (components : List Component) : Except Fault (List Complex) :=
  alternatives parser forgiving
    (Css.splitComponents (fun component => component.token == .comma)
      components)

/-- Read a pseudo-class with an argument. -/
def functionalPseudoClass (nested : Nested) (place : Place) (name : String)
    (content : List Component) : Except Fault Simple := do
  match counting? name with
  | some counting =>
      let (step, offset) ← entirely positionFormula content
      return .position counting step offset
  | none =>
      let selector := nested { place with inPseudoClass := true }
      match name.toLower with
      | "is" => return .anyOf (← listOf selector true content)
      | "where" => return .anyWithoutWeight (← listOf selector true content)
      | "not" => return .negation (← listOf selector false content)
      | "host" => return .host (← entirely (nested ⟨true, true⟩) content)
      | _ => throw (.unsupportedPseudo name)

/-- Read what follows a colon.  Pseudo-elements are never accepted. -/
def pseudo (nested : Nested) (place : Place) : Parse Simple := do
  let first ← takeAny
  let (single, named) ←
    if first.token = .colon then pure (false, ← takeAny)
    else pure (true, first)
  let refused (name : String) : Option Fault :=
    if single && !isLegacyPseudoElement name then none
    else if place.inPseudoClass then some .invalidState
    else some (.unsupportedPseudo name)
  match named.token with
  | .ident name =>
      match refused name, pseudoClass? name with
      | some fault, _ => fail fault
      | none, some simple => return simple
      | none, none => fail (.unsupportedPseudo name)
  | .function name =>
      match refused name with
      | some fault => fail fault
      | none => liftM (functionalPseudoClass nested place name named.content)
  | token => fail (.pseudoElementExpectedIdent token)

/-- Read one simple selector that is not a type selector, if there is one. -/
def simple? (nested : Nested) (place : Place) : Parse (Option Simple) := do
  let start ← get
  match ← takeAny? with
  | none => return none
  | some component =>
      match component.token with
      | .idHash name => return some (.id name)
      | .delim '.' =>
          match (← takeAny).token with
          | .ident name => return some (.className name)
          | token => fail (.classNeedsIdent token)
      | .bracketOpen =>
          let test ← liftM (entirely attributeTest component.content)
          return some (.withAttribute test)
      | .colon => return some (← pseudo nested place)
      | _ =>
          set start
          return none

/-- Read simple selectors as long as there are any, at most `fuel`. -/
def simples (nested : Nested) (place : Place) : Nat → Parse (List Simple)
  | 0 => return []
  | fuel + 1 => do
      match ← simple? nested place with
      | none => return []
      | some simple => return simple :: (← simples nested place fuel)

/-- Read a compound selector; without any part it is empty. -/
def compound (nested : Nested) (place : Place) : Parse (List Simple) := do
  modify (List.dropWhile Component.isFiller)
  let types ← typeSelector
  return types ++ (← simples nested place ((← get).length + 1))

/-- The combinator that a token stands for. -/
def combinator? : Token → Option Combinator
  | .delim '>' => some .child
  | .delim '+' => some .nextSibling
  | .delim '~' => some .laterSibling
  | _ => none

/-- Read a combinator, if there is one; white space alone is one when something
follows it. -/
def combinator : Parse (Option Combinator) := do
  let start ← get
  let spaced := (start.takeWhile Component.isFiller).any Component.isBlank
  match ← take? with
  | none => return none
  | some component =>
      match combinator? component.token with
      | some found => return some found
      | none =>
          set (start.dropWhile Component.isFiller)
          return if spaced then some .descendant else none

/-- Read the compounds to the right of `left`, at most `fuel`. -/
def chain (nested : Nested) (place : Place) : Nat → Complex → Parse Complex
  | 0, left => return left
  | fuel + 1, left => do
      match ← combinator with
      | none => return left
      | some between =>
          if place.inHost then fail .invalidState
          let last ← compound nested place
          if last.isEmpty then fail .danglingCombinator
          else chain nested place fuel (.combined left between last)

/-- Read a complex selector. -/
def complex (nested : Nested) (place : Place) : Parse Complex := do
  let first ← compound nested place
  if first.isEmpty then fail .emptySelector
  else chain nested place ((← get).length + 1) (.compound first)

/-- Read a complex selector with at most `depth` blocks inside each other. -/
def complexWithin : Nat → Nested
  | 0, _ => fail .emptySelector
  | depth + 1, place => complex (complexWithin depth) place

/-- Read a list of selectors. -/
def SelectorList.parse (text : String) : Except SelectorError SelectorList :=
  let components := Component.ofText text
  let selector :=
    complexWithin (Component.depths components + 1) ⟨false, false⟩
  match listOf selector false components with
  | .ok selectors => .ok ⟨text, selectors⟩
  | .error fault => .error ⟨text, fault⟩

end LiveTemplate.Selector
