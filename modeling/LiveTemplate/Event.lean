import LiveTemplate.Dom.Basic
import LiveTemplate.Identity
import LiveTemplate.Value

/-!
# Events

An event on a node travels along a path and shares one propagation flag with
all its copies.  A notice is what an observable tells its listeners.
-/

namespace LiveTemplate

structure DomEvent where
  type : String
  bubbles : Bool
  target : Option NodeId
  current : Option NodeId
  flag : FlagId
  deriving DecidableEq, Repr

inductive Payload where
  | change (property : String) (value old : Value)
  | event (event : DomEvent)
  | text (content : String)
  deriving DecidableEq, Repr

structure Notice where
  name : String
  payload : Payload
  deriving DecidableEq, Repr

/-- The name of the notice that a property has changed. -/
def changeOf (property : String) : String :=
  "change:" ++ property

end LiveTemplate
