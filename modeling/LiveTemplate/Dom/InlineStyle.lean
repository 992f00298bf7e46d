import LiveTemplate.Css.Declarations
import LiveTemplate.Dom.Basic

/-!
# Inline style

Single properties of the `style` attribute.  Removing the last one removes the
attribute.
-/

namespace LiveTemplate.Dom

open Css (Declarations)

def styleProperty? (dom : Dom) (n : NodeId) (property : String) :
    Option String :=
  (dom.attribute? n "style").bind fun style =>
    (Declarations.parse style).get? property

def setStyleProperty (dom : Dom) (n : NodeId) (property value : String) :
    Dom :=
  let declarations := Declarations.parse ((dom.attribute? n "style").getD "")
  dom.setAttribute n "style" (declarations.set property value).render

def removeStyleProperty (dom : Dom) (n : NodeId) (property : String) : Dom :=
  match dom.attribute? n "style" with
  | none => dom
  | some style =>
      let declarations := Declarations.parse style
      if declarations.contains property then
        let remaining := declarations.remove property
        if remaining.isEmpty then dom.removeAttribute n "style"
        else dom.setAttribute n "style" remaining.render
      else dom

end LiveTemplate.Dom
