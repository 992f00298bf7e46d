import LiveTemplate.Dom.Attribute
import LiveTemplate.Store

/-!
# Documents

A document is a store of nodes that refer to each other by number: every node
has a list of children and a link to its parent.  The two are kept in step by
the operations of `LiveTemplate.Dom.Tree`.
-/

namespace LiveTemplate

structure NodeId where
  index : Nat
  deriving DecidableEq, Repr, Inhabited

inductive NodeKind where
  | element (namespaceName tag : String) (attributes : List Attribute)
  | text (data : String)
  | fragment
  deriving DecidableEq, Repr

structure Node where
  kind : NodeKind
  parent : Option NodeId
  children : List NodeId
  deriving DecidableEq, Repr

instance : Inhabited Node := ⟨⟨.fragment, none, []⟩⟩

structure Dom where
  nodes : Store Node

namespace Dom

def empty : Dom := ⟨.empty⟩

instance : Inhabited Dom := ⟨empty⟩

/-- The row of a node. -/
def node (dom : Dom) (n : NodeId) : Node :=
  dom.nodes.get n.index

def kind (dom : Dom) (n : NodeId) : NodeKind :=
  (dom.node n).kind

def parent? (dom : Dom) (n : NodeId) : Option NodeId :=
  (dom.node n).parent

def children (dom : Dom) (n : NodeId) : List NodeId :=
  (dom.node n).children

def modify (dom : Dom) (n : NodeId) (change : Node → Node) : Dom :=
  ⟨dom.nodes.modify n.index change⟩

/-- Add a node that stands alone. -/
def create (dom : Dom) (kind : NodeKind) : NodeId × Dom :=
  let (index, nodes) := dom.nodes.alloc ⟨kind, none, []⟩
  (⟨index⟩, ⟨nodes⟩)

def setKind (dom : Dom) (n : NodeId) (kind : NodeKind) : Dom :=
  dom.modify n (fun node => { node with kind := kind })

def setParent (dom : Dom) (n : NodeId) (parent : Option NodeId) : Dom :=
  dom.modify n (fun node => { node with parent := parent })

def setChildren (dom : Dom) (n : NodeId) (children : List NodeId) : Dom :=
  dom.modify n (fun node => { node with children := children })

def isElement (dom : Dom) (n : NodeId) : Bool :=
  match dom.kind n with
  | .element _ _ _ => true
  | _ => false

def isText (dom : Dom) (n : NodeId) : Bool :=
  match dom.kind n with
  | .text _ => true
  | _ => false

def isFragment (dom : Dom) (n : NodeId) : Bool :=
  match dom.kind n with
  | .fragment => true
  | _ => false

def tag? (dom : Dom) (n : NodeId) : Option String :=
  match dom.kind n with
  | .element _ tag _ => some tag
  | _ => none

def namespace? (dom : Dom) (n : NodeId) : Option String :=
  match dom.kind n with
  | .element namespaceName _ _ => some namespaceName
  | _ => none

/-- The attributes of an element; other nodes have none. -/
def attributes (dom : Dom) (n : NodeId) : List Attribute :=
  match dom.kind n with
  | .element _ _ attributes => attributes
  | _ => []

/-- Change the attributes of an element; other nodes stay as they are. -/
def modifyAttributes (dom : Dom) (n : NodeId)
    (change : List Attribute → List Attribute) : Dom :=
  match dom.kind n with
  | .element namespaceName tag attributes =>
      dom.setKind n (.element namespaceName tag (change attributes))
  | _ => dom

def attribute? (dom : Dom) (n : NodeId) (name : String) : Option String :=
  Attribute.find? (dom.attributes n) name

def attributeNs? (dom : Dom) (n : NodeId) (namespaceName : Option String)
    (name : String) : Option String :=
  Attribute.findNs? (dom.attributes n) namespaceName name

def setAttribute (dom : Dom) (n : NodeId) (name value : String) : Dom :=
  dom.modifyAttributes n (Attribute.set · name value)

def setAttributeNs (dom : Dom) (n : NodeId) (namespaceName : Option String)
    (name value : String) : Dom :=
  dom.modifyAttributes n (Attribute.setNs · namespaceName name value)

def removeAttribute (dom : Dom) (n : NodeId) (name : String) : Dom :=
  dom.modifyAttributes n (Attribute.remove · name)

def removeAttributeNs (dom : Dom) (n : NodeId) (namespaceName : Option String)
    (name : String) : Dom :=
  dom.modifyAttributes n (Attribute.removeNs · namespaceName name)

end Dom

end LiveTemplate
