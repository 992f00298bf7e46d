import LiveTemplate.Dom.Tree
import LiveTemplate.Selector.Parser
import LiveTemplate.Template.Error
import LiveTemplate.Template.StyleMap
import LiveTemplate.World

/-!
# Checks before anything is changed

Rendering requires every nested definition to be an element or a text and every
template to be unrendered and to occur once.  Applying requires the shape of
the definition to be the shape of the node.  Both require listener selectors
and style maps to be well formed.

A nested template is older than the template around it, so that a template's
number bounds how deep the nesting below it can be.
-/

namespace LiveTemplate

open Selector (SelectorList)

variable {σ : Type}

/-- The event of a listener key, and the selector after an at sign. -/
def parseListenerKey (key : String) :
    Except TemplateError (String × Option SelectorList) :=
  match key.toList.span (· != '@') with
  | (_, []) => .ok (key, none)
  | (event, _ :: selector) =>
      match SelectorList.parse (String.ofList selector) with
      | .ok selectors => .ok (String.ofList event, some selectors)
      | .error cause => .error (.invalidSelector key cause)

def Member.isTemplate : Member → Bool
  | template _ => true
  | _ => false

namespace Blueprint

/-- The error for a blueprint with a fault. -/
def malformed (blueprint : Blueprint) (fault : DefinitionFault) :
    TemplateError :=
  .malformedDefinition blueprint.summary fault

/-- Check listener selectors, then style maps. -/
def checkEntries (blueprint : Blueprint) : Except TemplateError Unit := do
  blueprint.listeners.forM fun (key, _) => do
    let _ ← parseListenerKey key
  blueprint.attributes.forM fun (name, schema) =>
    if name == "style" then
      match styleMap? schema with
      | some (.error fault) => throw (blueprint.malformed fault)
      | _ => pure ()
    else pure ()

/-- How many children of a node a blueprint claims when applied. -/
def templateCount (blueprint : Blueprint) : Nat :=
  blueprint.children.countP Member.isTemplate

/-- Refuse children that cannot be applied. -/
def checkApplicable (path : DefinitionPath) :
    Nat → List Member → Except TemplateError Unit
  | _, [] => .ok ()
  | index, .view _ :: _ =>
      .error (.unsupportedApplyChild (path ++ [index]) .component)
  | index, .node _ :: _ =>
      .error (.unsupportedApplyChild (path ++ [index]) .rawNode)
  | index, _ :: rest => checkApplicable path (index + 1) rest

end Blueprint

namespace Template

/-- Check the nested templates among children; `seen` are the templates placed
so far. -/
def checkFreshChildren (world : World σ)
    (check : TemplateId → List TemplateId →
      Except TemplateError (List TemplateId)) :
    List Member → List TemplateId → Except TemplateError (List TemplateId)
  | [], seen => .ok seen
  | .template t :: rest, seen =>
      if (world.template t).rendered || seen.contains t then
        .error .alreadyRendered
      else do
        let seen ← check t (seen ++ [t])
        checkFreshChildren world check rest seen
  | _ :: rest, seen => checkFreshChildren world check rest seen

/-- Check a template for rendering, at most `fuel` levels deep. -/
def checkFreshWithin (world : World σ) :
    Nat → TemplateId → List TemplateId →
      Except TemplateError (List TemplateId)
  | 0, _, _ => .error .cyclicNesting
  | fuel + 1, t, seen => do
      let blueprint := (world.template t).blueprint
      if blueprint.tag.isSome = blueprint.text.isSome then
        throw (blueprint.malformed .shape)
      blueprint.checkEntries
      checkFreshChildren world (checkFreshWithin world fuel)
        blueprint.children seen

/-- Check a template for rendering. -/
def checkFresh (world : World σ) (t : TemplateId) :
    Except TemplateError Unit := do
  let _ ← checkFreshWithin world (t.index + 1) t [t]

/-- Check nested templates against the children of a node, one for one. -/
def checkApplyChildren (mismatch : TemplateError) (path : DefinitionPath)
    (check : TemplateId → NodeId → DefinitionPath →
      Except TemplateError Unit) :
    Nat → List Member → List NodeId → Except TemplateError Unit
  | _, [], _ => .ok ()
  | index, .template t :: rest, n :: nodes => do
      check t n (path ++ [index])
      checkApplyChildren mismatch path check (index + 1) rest nodes
  | _, .template _ :: _, [] => .error mismatch
  | index, _ :: rest, nodes =>
      checkApplyChildren mismatch path check (index + 1) rest nodes

/-- Check a template for applying to a node, at most `fuel` levels deep. -/
def checkApplyWithin (world : World σ) :
    Nat → TemplateId → NodeId → DefinitionPath → Except TemplateError Unit
  | 0, _, _, _ => .error .cyclicNesting
  | fuel + 1, t, n, path => do
      let blueprint := (world.template t).blueprint
      if blueprint.tag.isSome && blueprint.text.isSome then
        throw (blueprint.malformed .shape)
      if blueprint.text.isSome then
        if !world.dom.isText n then throw (.nodeKindMismatch path .text)
      else
        if !world.dom.isElement n then
          throw (.nodeKindMismatch path .element)
        blueprint.checkEntries
        Blueprint.checkApplicable path 0 blueprint.children
        let mismatch : TemplateError := .childrenMismatch path
          blueprint.templateCount (world.dom.children n).length
        if blueprint.templateCount ≠ (world.dom.children n).length then
          throw mismatch
        checkApplyChildren mismatch path (checkApplyWithin world fuel) 0
          blueprint.children (world.dom.children n)

/-- Check a template for applying to a node. -/
def checkApply (world : World σ) (t : TemplateId) (n : NodeId) :
    Except TemplateError Unit :=
  checkApplyWithin world (t.index + 1) t n []

end Template

end LiveTemplate
