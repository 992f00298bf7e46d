import LiveTemplate.Event

/-!
# Schemas

A schema is a list of chunks whose values are joined into one text.  A chunk is
a fixed value, a binding to a property, a schema with a namespace, or a map of
style properties.
-/

namespace LiveTemplate

/-- What a bound value stands for: itself, or a choice by its truth. -/
inductive BindingRule where
  | value
  | choice (ifTrue : Option Value)
  deriving DecidableEq, Repr

/-- A link to a property.  The emitter owns the subscriptions made for it. -/
structure Binding where
  observable : ObservableId
  emitter : EmitterId
  property : String
  rule : BindingRule
  transform : Option Handler
  deriving DecidableEq, Repr

namespace BindingRule

/-- A choice; a falsy value stands for plain truth. -/
def choose (ifTrue : Value) : BindingRule :=
  .choice (if ifTrue.isTruthy then some ifTrue else none)

def isChoice : BindingRule → Bool
  | value => false
  | choice _ => true

/-- What a rule makes of a value. -/
def apply : BindingRule → Value → Value
  | value, current => current
  | choice ifTrue, current =>
      if current.isFalsy then .bool false else ifTrue.getD (.bool true)

def describe : BindingRule → String
  | value => "To"
  | choice none => "If \x7b value_if_true: None \x7d"
  | choice (some ifTrue) =>
      "If \x7b value_if_true: Some(" ++ ifTrue.describe ++ ") \x7d"

end BindingRule

def Binding.describe (binding : Binding) : String :=
  "TemplateBinding \x7b attribute: " ++ quoted binding.property ++
    ", kind: " ++ binding.rule.describe ++ ", callback: " ++
    (if binding.transform.isSome then "true" else "false") ++ " \x7d"

inductive Chunk where
  | fixed (value : Value)
  | bound (binding : Binding)
  | namespaced (namespaceName : String) (chunks : List Chunk)
  | styles (properties : List (String × List Chunk))

abbrev Schema := List Chunk

/-- Style properties with their schemas, in order. -/
abbrev StyleMap := List (String × Schema)

def Chunk.isBound : Chunk → Bool
  | .bound _ => true
  | _ => false

mutual

/-- Whether a binding occurs anywhere in a chunk. -/
def Chunk.hasBinding : Chunk → Bool
  | .fixed _ => false
  | .bound _ => true
  | .namespaced _ chunks => hasBindingAny chunks
  | .styles properties => hasBindingEntries properties

def hasBindingAny : List Chunk → Bool
  | [] => false
  | chunk :: chunks => chunk.hasBinding || hasBindingAny chunks

def hasBindingEntry : String × List Chunk → Bool
  | (_, chunks) => hasBindingAny chunks

def hasBindingEntries : List (String × List Chunk) → Bool
  | [] => false
  | entry :: entries => hasBindingEntry entry || hasBindingEntries entries

end

mutual

/-- A chunk with the schemas of its namespaces put in their place. -/
def Chunk.flatten : Chunk → List Chunk
  | .namespaced _ chunks => flattenChunks chunks
  | .fixed value => [.fixed value]
  | .bound binding => [.bound binding]
  | .styles properties => [.styles properties]

def flattenChunks : List Chunk → List Chunk
  | [] => []
  | chunk :: chunks => chunk.flatten ++ flattenChunks chunks

end

/-- The namespace of an attribute is that of its first chunk. -/
def Schema.namespace? (schema : Schema) : Option String :=
  match schema with
  | .namespaced namespaceName _ :: _ => some namespaceName
  | _ => none

/-- Change the list under a key, or add what the change makes of none. -/
def updateEntry {β : Type} (key : String) (change : List β → List β) :
    List (String × List β) → List (String × List β)
  | [] => [(key, change [])]
  | (name, items) :: rest =>
      if name == key then (name, change items) :: rest
      else (name, items) :: updateEntry key change rest

/-- Append to the list under a key. -/
def appendEntry {β : Type} (key : String) (added : List β)
    (entries : List (String × List β)) : List (String × List β) :=
  updateEntry key (· ++ added) entries

end LiveTemplate
