import LiveTemplate.Dom.Basic

/-!
# Building trees

Moving nodes into, within and out of trees.  A fragment is never a child: it
hands its children over.  A node that is inserted leaves its former place
first, so a reference to the node itself is not found any more.
-/

namespace LiveTemplate.Dom

/-- The place of a node among the children of its parent. -/
def indexInParent? (dom : Dom) (n : NodeId) : Option Nat :=
  (dom.parent? n).bind fun parent => (dom.children parent).idxOf? n

/-- A node and the nodes below it, down to `fuel` generations. -/
def subtreeWithin (dom : Dom) : Nat → NodeId → List NodeId
  | 0, n => [n]
  | fuel + 1, n => n :: (dom.children n).flatMap (dom.subtreeWithin fuel)

/-- A node and the nodes below it.  No path is longer than the number of
nodes. -/
def subtree (dom : Dom) (n : NodeId) : List NodeId :=
  dom.subtreeWithin dom.nodes.size n

/-- Take a child out of its parent; a node that is no child stays. -/
def removeChild (dom : Dom) (parent child : NodeId) : Dom :=
  if child ∈ dom.children parent then
    (dom.setChildren parent ((dom.children parent).filter (· ≠ child))).setParent
      child none
  else dom

/-- Take a node out of its parent, if it has one. -/
def detach (dom : Dom) (n : NodeId) : Dom :=
  match dom.parent? n with
  | some parent => dom.removeChild parent n
  | none => dom

/-- Put a node before a reference, or at the end if the reference is missing. -/
def insertInto (child : NodeId) (reference : Option NodeId) :
    List NodeId → List NodeId
  | [] => [child]
  | sibling :: rest =>
      if some sibling = reference then child :: sibling :: rest
      else sibling :: insertInto child reference rest

/-- Move one node to its place in a parent. -/
def place (dom : Dom) (parent child : NodeId) (reference : Option NodeId) :
    Dom :=
  let dom := dom.detach child
  (dom.setChildren parent
    (insertInto child reference (dom.children parent))).setParent child
      (some parent)

/-- Take all children out of a node. -/
def clearChildren (dom : Dom) (n : NodeId) : Dom :=
  (dom.children n).foldl (fun dom child => dom.setParent child none)
    (dom.setChildren n [])

/-- Insert a node before a reference, or at the end.  Text has no children. -/
def insertBefore (dom : Dom) (parent child : NodeId)
    (reference : Option NodeId) : Dom :=
  if dom.isText parent then dom
  else if dom.isFragment child then
    (dom.children child).foldl
      (fun dom moved => dom.place parent moved reference)
      (dom.clearChildren child)
  else dom.place parent child reference

def appendChild (dom : Dom) (parent child : NodeId) : Dom :=
  dom.insertBefore parent child none

/-- Replace the data of a text node, or all children of another node by one
text node; the empty text leaves no child. -/
def setText (dom : Dom) (n : NodeId) (data : String) : Dom :=
  match dom.kind n with
  | .text _ => dom.setKind n (.text data)
  | _ =>
      let dom := dom.clearChildren n
      if data.isEmpty then dom
      else
        let (child, dom) := dom.create (.text data)
        dom.appendChild n child

end LiveTemplate.Dom
