import LiveTemplate.Template.Schema

/-!
# Definitions

What a template is made from: an element with a tag, a text, or neither when it
is only to be applied to an existing element or to extend a template.  Names
that repeat extend what is already there.

Definitions nest.  In a blueprint every nested definition has become a template
of its own.
-/

namespace LiveTemplate

/-- What happens when an event reaches a listener of a template. -/
inductive ListenerAction where
  | emit (name : String)
  | call (handler : Handler)
  deriving DecidableEq, Repr

structure ListenerBinding where
  observable : ObservableId
  emitter : EmitterId
  action : ListenerAction
  deriving DecidableEq, Repr

/-- In the place of a listener a binding names the notice to send. -/
def ListenerBinding.ofBinding (binding : Binding) : ListenerBinding :=
  ⟨binding.observable, binding.emitter, .emit binding.property⟩

def ListenerBinding.describe (binding : ListenerBinding) : String :=
  let action :=
    match binding.action with
    | .emit name => "emit " ++ name
    | .call _ => "callback"
  "ListenerBinding \x7b action: " ++ quoted action ++ " \x7d"

/-- The parts of a definition with children of some kind. -/
structure Parts (γ : Type) where
  tag : Option String
  namespaceName : Option String
  text : Option (List Chunk)
  attributes : List (String × List Chunk)
  listeners : List (String × List ListenerBinding)
  children : List γ

/-- Whatever can stand among the children of a definition. -/
inductive Child where
  | definition (parts : Parts Child)
  | template (template : TemplateId)
  | view (view : ViewId)
  | collection (collection : CollectionId)
  | node (node : NodeId)

abbrev Definition := Parts Child

/-- A child of a blueprint. -/
inductive Member where
  | template (template : TemplateId)
  | view (view : ViewId)
  | collection (collection : CollectionId)
  | node (node : NodeId)
  deriving DecidableEq, Repr

abbrev Blueprint := Parts Member

namespace Parts

variable {γ : Type}

/-- Neither element nor text. -/
def none : Parts γ := ⟨Option.none, Option.none, Option.none, [], [], []⟩

instance : Inhabited (Parts γ) := ⟨none⟩

def ofTag (tag : String) : Parts γ := { none with tag := some tag }

def ofText (text : Schema) : Parts γ := { none with text := some text }

def withText (parts : Parts γ) (text : Schema) : Parts γ :=
  { parts with text := some text }

def withNamespace (parts : Parts γ) (namespaceName : String) : Parts γ :=
  { parts with namespaceName := some namespaceName }

/-- Add to the schema of an attribute. -/
def attr (parts : Parts γ) (name : String) (schema : Schema) : Parts γ :=
  { parts with attributes := appendEntry name schema parts.attributes }

def attrNs (parts : Parts γ) (namespaceName name : String) (schema : Schema) :
    Parts γ :=
  parts.attr name [.namespaced namespaceName schema]

/-- Add a property to the style map at the end of a schema, or begin one. -/
def addStyle (property : String) (schema : Schema) (chunks : List Chunk) :
    List Chunk :=
  match chunks.getLast? with
  | some (.styles properties) =>
      chunks.dropLast ++ [.styles (appendEntry property schema properties)]
  | _ => chunks ++ [.styles [(property, schema)]]

/-- Add to one property of the `style` attribute. -/
def style (parts : Parts γ) (property : String) (schema : Schema) : Parts γ :=
  { parts with
    attributes := updateEntry "style" (addStyle property schema)
      parts.attributes }

/-- Listen for an event, or for an event on targets that a selector matches. -/
def on (parts : Parts γ) (key : String) (binding : ListenerBinding) :
    Parts γ :=
  { parts with listeners := appendEntry key [binding] parts.listeners }

def child (parts : Parts γ) (added : γ) : Parts γ :=
  { parts with children := parts.children ++ [added] }

/-- Add the attributes, text and listeners of another definition. -/
def merge {δ : Type} (parts : Parts γ) (extension : Parts δ) : Parts γ :=
  { parts with
    attributes := extension.attributes.foldl
      (fun attributes (name, schema) => appendEntry name schema attributes)
      parts.attributes
    text :=
      match extension.text with
      | Option.none => parts.text
      | some added => some (parts.text.getD [] ++ added)
    listeners := extension.listeners.foldl
      (fun listeners (key, bindings) => appendEntry key bindings listeners)
      parts.listeners }

/-- What a definition consists of, in short. -/
def summary (parts : Parts γ) : String :=
  let names {β : Type} (entries : List (String × List β)) : String :=
    String.intercalate ", " (entries.map Prod.fst)
  "\x7b" ++
    (match parts.tag with
      | some tag => " tag: " ++ quoted tag
      | Option.none => "") ++
    (match parts.text with
      | some text => " text: " ++ toString text.length ++ " chunk(s)"
      | Option.none => "") ++
    (if parts.attributes.isEmpty then ""
      else " attributes: [" ++ names parts.attributes ++ "]") ++
    (if parts.listeners.isEmpty then ""
      else " on: [" ++ names parts.listeners ++ "]") ++
    (if parts.children.isEmpty then ""
      else " children: " ++ toString parts.children.length) ++ " \x7d"

end Parts

end LiveTemplate
