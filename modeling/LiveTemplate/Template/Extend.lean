import LiveTemplate.Template.Error
import LiveTemplate.World

/-!
# Making and extending templates

A definition becomes a template, and so does every definition nested in it,
inner ones first.  An extension adds the attributes, texts and listeners of a
definition to a template and, position by position, to the templates nested in
it; it is checked as a whole before anything is added.
-/

namespace LiveTemplate

variable {σ : Type}

namespace Template

/-- Add a template with a blueprint. -/
def add (blueprint : Blueprint) : Act σ TemplateId :=
  modifyGet fun world =>
    let (index, templates) := world.templates.alloc ⟨blueprint, false, none⟩
    (⟨index⟩, { world with templates := templates })

mutual

/-- The blueprint of a definition. -/
def compile : Parts Child → Act σ Blueprint
  | ⟨tag, namespaceName, text, attributes, listeners, children⟩ => do
      let members ← compileChildren children
      return ⟨tag, namespaceName, text, attributes, listeners, members⟩

def compileChild : Child → Act σ Member
  | .definition parts => do
      let blueprint ← compile parts
      return .template (← add blueprint)
  | .template t => return .template t
  | .view view => return .view view
  | .collection collection => return .collection collection
  | .node node => return .node node

def compileChildren : List Child → Act σ (List Member)
  | [] => return []
  | child :: rest => do
      let member ← compileChild child
      return member :: (← compileChildren rest)

end

/-- Make a template from a definition. -/
def create (definition : Definition) : Act σ TemplateId := do
  add (← compile definition)

/-- Check pairs of children; only two templates can be extended. -/
def checkExtendChildren (mixed : TemplateError)
    (check : TemplateId → TemplateId → Except TemplateError Unit) :
    List Member → List Member → Except TemplateError Unit
  | .template t :: rest, .template other :: others => do
      check t other
      checkExtendChildren mixed check rest others
  | [], _ => .ok ()
  | _, [] => .ok ()
  | _ :: _, _ :: _ => .error mixed

/-- Check one level of an extension. -/
def checkExtendLevel (world : World σ)
    (check : TemplateId → TemplateId → Except TemplateError Unit)
    (t : TemplateId) (extension : Blueprint) : Except TemplateError Unit := do
  if (world.template t).rendered then throw .extendRendered
  if !extension.children.isEmpty then
    let blueprint := (world.template t).blueprint
    if blueprint.children.length ≠ extension.children.length then
      throw (.extendChildrenMismatch blueprint.children.length
        extension.children.length)
    checkExtendChildren
      (.malformedDefinition blueprint.summary .fixedChild) check
      blueprint.children extension.children

/-- Check an extension at most `fuel` levels deep. -/
def checkExtendWithin (world : World σ) :
    Nat → TemplateId → Blueprint → Except TemplateError Unit
  | 0, _, _ => .error .cyclicNesting
  | fuel + 1, t, extension =>
      checkExtendLevel world
        (fun nested other =>
          checkExtendWithin world fuel nested (world.template other).blueprint)
        t extension

/-- The nested templates that an extension extends, with what it adds. -/
def extendedPairs (world : World σ) :
    List Member → List Member → List (TemplateId × Blueprint)
  | .template t :: rest, .template other :: others =>
      (t, (world.template other).blueprint) :: extendedPairs world rest others
  | _ :: rest, _ :: others => extendedPairs world rest others
  | _, _ => []

/-- Merge a blueprint into a template, at most `fuel` levels deep. -/
def mergeWithin : Nat → TemplateId → Blueprint → Act σ Unit
  | 0, _, _ => return ()
  | fuel + 1, t, extension => do
      modify fun world =>
        { world with
          templates := world.templates.modify t.index fun template =>
            { template with blueprint := template.blueprint.merge extension } }
      let world ← get
      let pairs := extendedPairs world (world.template t).blueprint.children
        extension.children
      pairs.forM fun (nested, added) => mergeWithin fuel nested added

/-- Add a definition to a template that has not been rendered. -/
def extend (t : TemplateId) (definition : Definition) :
    Act σ (Except TemplateError Unit) := do
  let extension ← compile definition
  match checkExtendWithin (← get) (t.index + 1) t extension with
  | .error error => return .error error
  | .ok () =>
      mergeWithin (t.index + 1) t extension
      return .ok ()

/-- The views among children and, depth first, in nested templates. -/
def viewsAmong (nested : TemplateId → List ViewId) :
    List Member → List ViewId
  | [] => []
  | .view view :: rest => view :: viewsAmong nested rest
  | .template t :: rest => nested t ++ viewsAmong nested rest
  | _ :: rest => viewsAmong nested rest

def viewsWithin (world : World σ) : Nat → TemplateId → List ViewId
  | 0, _ => []
  | fuel + 1, t =>
      viewsAmong (viewsWithin world fuel)
        (world.template t).blueprint.children

/-- Every view in a template, depth first; collections are not searched. -/
def views (world : World σ) (t : TemplateId) : List ViewId :=
  viewsWithin world (t.index + 1) t

end Template

end LiveTemplate
