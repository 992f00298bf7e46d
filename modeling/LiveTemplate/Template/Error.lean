import LiveTemplate.Selector.Fault

/-!
# What can go wrong with a template
-/

namespace LiveTemplate

/-- The place of a definition: the indexes that lead to it from the root. -/
abbrev DefinitionPath := List Nat

def DefinitionPath.text (path : DefinitionPath) : String :=
  "root" ++ String.join (path.map fun index => "/" ++ toString index)

/-- What is wrong with a definition: it is not either an element or a text,
its style map has other chunks in it, or it extends what is no definition. -/
inductive DefinitionFault where
  | shape
  | boundStyle (property : String)
  | namespacedStyle
  | fixedChild
  deriving DecidableEq, Repr

/-- The kinds of node a definition can be applied to. -/
inductive Applicable where
  | text
  | element
  deriving DecidableEq, Repr

/-- The kinds of child that cannot be applied. -/
inductive Inapplicable where
  | component
  | rawNode
  deriving DecidableEq, Repr

inductive TemplateError where
  | malformedDefinition (summary : String) (fault : DefinitionFault)
  | extendRendered
  | alreadyRendered
  | alreadyApplied
  | revertWithoutApply
  | childrenMismatch (path : DefinitionPath) (expected actual : Nat)
  | extendChildrenMismatch (expected actual : Nat)
  | nodeKindMismatch (path : DefinitionPath) (expected : Applicable)
  | unsupportedApplyChild (path : DefinitionPath) (kind : Inapplicable)
  | invalidSelector (key : String) (cause : SelectorError)
  | componentNotRendered
  | cyclicNesting
  deriving DecidableEq, Repr

/-- What a malformed definition is reported with, after its summary. -/
def DefinitionFault.remark : DefinitionFault → String
  | shape => ""
  | boundStyle property =>
      ": binding to `" ++ property ++ "` mixed into a style map"
  | namespacedStyle => ": namespaced value mixed into a style map"
  | fixedChild => ": only nested definitions can be extended"

def TemplateError.message : TemplateError → String
  | malformedDefinition summary fault =>
      "malformed template definition: " ++ summary ++ fault.remark
  | extendRendered =>
      "cannot extend a template that has already been rendered"
  | alreadyRendered => "template has already been rendered"
  | alreadyApplied =>
      "template is already applied to a node; revert it first"
  | revertWithoutApply => "revert called without a matching apply"
  | childrenMismatch path expected actual =>
      "children mismatch at " ++ path.text ++ ": definition has " ++
        toString expected ++ ", node has " ++ toString actual
  | extendChildrenMismatch expected actual =>
      "extension has " ++ toString actual ++
        " children but the template has " ++ toString expected
  | nodeKindMismatch path .text =>
      "node at " ++ path.text ++ " is not a text node"
  | nodeKindMismatch path .element =>
      "node at " ++ path.text ++ " is not an element node"
  | unsupportedApplyChild path .component =>
      "cannot apply a component child at " ++ path.text
  | unsupportedApplyChild path .rawNode =>
      "cannot apply a raw node child at " ++ path.text
  | invalidSelector key _ => "invalid listener selector in `" ++ key ++ "`"
  | componentNotRendered => "component has no element after rendering"
  | cyclicNesting => "a template is nested in itself"

end LiveTemplate
