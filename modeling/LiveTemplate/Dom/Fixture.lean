import LiveTemplate.Dom.Markup
import LiveTemplate.Dom.Tree
import LiveTemplate.Selector.Match

/-!
# Describing trees

A fixture describes a tree of HTML elements and text; mounting it builds the
nodes, parents before their children.
-/

namespace LiveTemplate

/-- A tree of HTML elements with plain attributes, and text. -/
inductive Fixture where
  | element (tag : String) (attributes : List (String × String))
      (children : List Fixture)
  | text (data : String)

namespace Fixture

/-- Attribute lists name each attribute once, in the place of the first. -/
def setAttribute (attributes : List (String × String)) (name value : String) :
    List (String × String) :=
  match attributes with
  | [] => [(name, value)]
  | (other, old) :: rest =>
      if other == name then (other, value) :: rest
      else (other, old) :: setAttribute rest name value

mutual

/-- Build the nodes of a fixture. -/
def mount (dom : Dom) : Fixture → NodeId × Dom
  | element tag attributes children =>
      let (n, dom) := dom.create (.element Selector.htmlNamespace tag [])
      let dom := attributes.foldl
        (fun dom (name, value) => dom.setAttribute n name value) dom
      (n, mountAll dom n children)
  | text data => dom.create (.text data)

/-- Build fixtures one after the other as children of a node. -/
def mountAll (dom : Dom) (parent : NodeId) : List Fixture → Dom
  | [] => dom
  | child :: rest =>
      let (n, dom) := mount dom child
      mountAll (dom.appendChild parent n) parent rest

end

end Fixture

end LiveTemplate
