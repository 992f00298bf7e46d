import LiveTemplate.Dom.Markup
import LiveTemplate.Dom.Tree
import LiveTemplate.World

/-!
# Collections

A collection keeps the elements of its members in order under one parent.  A
member goes before the next mounted member, or after the last one before it;
without either it goes before the anchor, the node that follows the collection.
-/

namespace LiveTemplate.Collection

variable {σ : Type}

def create : Act σ CollectionId :=
  modifyGet fun world =>
    let (index, collections) := world.collections.alloc ⟨[], none, none⟩
    (⟨index⟩, { world with collections := collections })

def update (c : CollectionId) (change : Collection → Collection) :
    Act σ Unit :=
  modify fun world =>
    { world with collections := world.collections.modify c.index change }

/-- Say where the members of a collection are, and the node after them. -/
def setParent (c : CollectionId) (parent : NodeId) (anchor : Option NodeId) :
    Act σ Unit :=
  update c fun collection =>
    { collection with parent := some parent, anchor := anchor }

/-- The element of a view if it is a child of the parent. -/
def mounted? (world : World σ) (parent : NodeId) (v : ViewId) :
    Option NodeId :=
  (world.view v).element.filter fun element =>
    world.dom.parent? element == some parent

/-- The node that the member at a place goes before: the next member that is
mounted, or what follows the last one before, or the anchor. -/
def referenceFor (world : World σ) (collection : Collection) (index : Nat)
    (parent : NodeId) : Option NodeId :=
  let found := mounted? world parent
  match (collection.members.drop (index + 1)).findSome? found with
  | some next => some next
  | none =>
      match (collection.members.take index).reverse.findSome? found with
      | some previous =>
          (world.dom.indexInParent? previous).bind fun place =>
            (world.dom.children parent)[place + 1]?
      | none =>
          collection.anchor.filter fun anchor =>
            world.dom.parent? anchor == some parent

/-- Take the element of a member out of the parent. -/
def detach (c : CollectionId) (v : ViewId) : Act σ Unit := do
  let world ← get
  match (world.collection c).parent, (world.view v).element with
  | some parent, some element =>
      modifyDom fun dom => dom.removeChild parent element
  | _, _ => pure ()

/-- Remove the member at a place. -/
def remove (c : CollectionId) (index : Nat) : Act σ (Option ViewId) := do
  match ((← get).collection c).members[index]? with
  | none => return none
  | some v =>
      update c fun collection =>
        { collection with members := collection.members.eraseIdx index }
      detach c v
      return some v

/-- Remove all members. -/
def clear (c : CollectionId) : Act σ Unit := do
  let members := ((← get).collection c).members
  update c fun collection => { collection with members := [] }
  members.forM (detach c)

/-- Destroy all members, given how a view is destroyed, and forget the
parent. -/
def destroyWith (destroyView : ViewId → Act σ Unit) (c : CollectionId) :
    Act σ Unit := do
  let members := ((← get).collection c).members
  update c fun collection => { collection with members := [] }
  keeping (.refs [.collection c]) (keepingEach .view destroyView members)
  update c fun collection =>
    { collection with parent := none, anchor := none }

def describe (world : World σ) (collection : Collection) : String :=
  let parent :=
    match collection.parent with
    | some n => "Some(" ++ world.dom.describe n ++ ")"
    | none => "None"
  "ViewCollection \x7b len: " ++ toString collection.members.length ++
    ", parent: " ++ parent ++ " \x7d"

end LiveTemplate.Collection
