import LiveTemplate.Dom.Markup
import LiveTemplate.Dom.Tree
import LiveTemplate.Selector.Match

/-!
# Finding one's way in a document

The nodes above and beside a node, and the view of a document that selectors
are matched against.  The elements above a node end below the first node that
is no element.
-/

namespace LiveTemplate.Dom

open Selector (ElementView SelectorList)

/-- The nodes above a node, nearest first, at most `fuel` of them. -/
def ancestorsWithin (dom : Dom) : Nat → NodeId → List NodeId
  | 0, _ => []
  | fuel + 1, n =>
      match dom.parent? n with
      | none => []
      | some parent => parent :: dom.ancestorsWithin fuel parent

/-- The nodes above a node, nearest first. -/
def ancestors (dom : Dom) (n : NodeId) : List NodeId :=
  dom.ancestorsWithin dom.nodes.size n

def elementAncestors (dom : Dom) (n : NodeId) : List NodeId :=
  (dom.ancestors n).takeWhile dom.isElement

/-- The siblings before and after a node. -/
def siblings (dom : Dom) (n : NodeId) : List NodeId × List NodeId :=
  match dom.parent? n, dom.indexInParent? n with
  | some parent, some index =>
      ((dom.children parent).take index, (dom.children parent).drop (index + 1))
  | _, _ => ([], [])

/-- The elements before a node, nearest first. -/
def precedingElements (dom : Dom) (n : NodeId) : List NodeId :=
  (dom.siblings n).1.reverse.filter dom.isElement

/-- The elements after a node, nearest first. -/
def followingElements (dom : Dom) (n : NodeId) : List NodeId :=
  (dom.siblings n).2.filter dom.isElement

/-- Whether a node has no child but text without data. -/
def hasNoContent (dom : Dom) (n : NodeId) : Bool :=
  (dom.children n).all fun child =>
    match dom.kind child with
    | .text data => data.isEmpty
    | _ => false

/-- What selectors see of a document. -/
def elementView (dom : Dom) : ElementView NodeId where
  tag n := (dom.tag? n).getD ""
  namespaceOf n := (dom.namespace? n).getD ""
  attributeOf := dom.attribute?
  ancestors := dom.elementAncestors
  preceding := dom.precedingElements
  following := dom.followingElements
  isEmpty := dom.hasNoContent

/-- Whether a node is an element that matches one of the selectors. -/
def isMatch (dom : Dom) (n : NodeId) (selectors : SelectorList) : Bool :=
  dom.isElement n && selectors.holds dom.elementView n

end LiveTemplate.Dom
