/-!
# Attributes

The attributes of an element in order.  Attributes are looked up by name alone,
whatever their namespace, or by namespace and name together; setting one keeps
its place.
-/

namespace LiveTemplate

structure Attribute where
  namespaceName : Option String
  name : String
  value : String
  deriving DecidableEq, Repr

namespace Attribute

/-- Whether an attribute has this namespace and name. -/
def isNamed (entry : Attribute) (namespaceName : Option String)
    (name : String) : Bool :=
  entry.namespaceName == namespaceName && entry.name == name

/-- The value of the first attribute with a name. -/
def find? (attributes : List Attribute) (name : String) : Option String :=
  (attributes.find? (·.name == name)).map (·.value)

/-- The value of the attribute with a namespace and name. -/
def findNs? (attributes : List Attribute) (namespaceName : Option String)
    (name : String) : Option String :=
  (attributes.find? (·.isNamed namespaceName name)).map (·.value)

/-- Give the first attribute that satisfies a test a new value, or append an
attribute. -/
def setWhere (selected : Attribute → Bool) (added : Attribute) :
    List Attribute → List Attribute
  | [] => [added]
  | entry :: rest =>
      if selected entry then
        { entry with value := added.value } :: rest
      else entry :: setWhere selected added rest

/-- Set the first attribute with a name; a new one has no namespace. -/
def set (attributes : List Attribute) (name value : String) :
    List Attribute :=
  setWhere (·.name == name) ⟨none, name, value⟩ attributes

def setNs (attributes : List Attribute) (namespaceName : Option String)
    (name value : String) : List Attribute :=
  setWhere (·.isNamed namespaceName name) ⟨namespaceName, name, value⟩
    attributes

/-- Remove the first attribute with a name. -/
def remove (attributes : List Attribute) (name : String) : List Attribute :=
  attributes.eraseP (·.name == name)

def removeNs (attributes : List Attribute) (namespaceName : Option String)
    (name : String) : List Attribute :=
  attributes.filter (fun entry => !entry.isNamed namespaceName name)

end Attribute

end LiveTemplate
