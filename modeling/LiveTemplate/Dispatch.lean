import LiveTemplate.Dom.Navigation
import LiveTemplate.Liveness
import LiveTemplate.Observable

/-!
# Events on nodes

An event visits its target and, if it bubbles, the nodes above it as they were
when it set out.  At each node it reaches it runs the listeners present at that
moment, leaving out those removed before their turn.  Once its propagation is
stopped it finishes the node it is at and goes no further.
-/

namespace LiveTemplate

variable {σ : Type}

namespace DomEvent

/-- An event that has not been sent. -/
def create (type : String) (bubbles : Bool) : Act σ DomEvent :=
  modifyGet fun world =>
    let (index, flags) := world.flags.alloc false
    (⟨type, bubbles, none, none, ⟨index⟩⟩, { world with flags := flags })

/-- Stop the propagation of an event and all its copies. -/
def stop (event : DomEvent) : Act σ Unit :=
  modify fun world =>
    { world with flags := world.flags.put event.flag.index true }

def describe (dom : Dom) (event : DomEvent) : String :=
  let target :=
    match event.target with
    | some n => "Some(" ++ dom.describe n ++ ")"
    | none => "None"
  "DomEvent \x7b type: " ++ quoted event.type ++ ", target: " ++ target ++
    ", bubbles: " ++ (if event.bubbles then "true" else "false") ++ " \x7d"

end DomEvent

namespace NodeEvents

def modifyActions (n : NodeId)
    (change : Listeners EventAction → Listeners EventAction) : Act σ Unit :=
  modify fun world =>
    { world with eventActions := world.eventActions.modify n.index change }

/-- Listen for a type of event on a node. -/
def subscribe (n : NodeId) (type : String) (action : EventAction) :
    Act σ ListenerId := do
  let (id, listeners) := ((← get).eventActionsOf n).add type action
  modifyActions n fun _ => listeners
  return id

def unsubscribe (n : NodeId) (id : ListenerId) : Act σ Unit :=
  modifyActions n (·.remove id)

/-- Whether the target of an event is what a listener asks for. -/
def admits (host : Host σ) (world : World σ) (event : DomEvent) :
    Option Selector.SelectorList → Bool
  | none => true
  | some selectors =>
      event.target.any fun target =>
        (host.liveDom world).isMatch target selectors

/-- What a listener does with an event. -/
def react (host : Host σ) (event : DomEvent) : EventAction → Act σ Unit
  | .call handler => host.event handler event
  | .delegate selectors binding => do
      if admits host (← get) event selectors then
        match binding.action with
        | .emit name =>
            Observable.fire host binding.observable name (.event event)
        | .call handler => host.event handler event

/-- Run listeners one after the other, those that are still subscribed. -/
def runEach (host : Host σ) (n : NodeId) (event : DomEvent) :
    List (Listener EventAction) → Act σ Unit
  | [] => pure ()
  | listener :: rest => do
      if ((← get).eventActionsOf n).contains listener.id then
        react host event listener.action
      runEach host n event rest

/-- Visit the nodes of a path.  A node without listeners for the event is
passed by, whether or not propagation has been stopped. -/
def travel (host : Host σ) (event : DomEvent) : List NodeId → Act σ Unit
  | [] => pure ()
  | n :: rest => do
      let listeners := ((← get).eventActionsOf n).of event.type
      if listeners.isEmpty then
        travel host event rest
      else
        let here := { event with current := some n }
        keeping (.refs (here.refs ++ rest.map .node))
          (runEach host n here listeners)
        if !(← get).isStopped event then
          travel host event rest

/-- The nodes an event visits. -/
def path (dom : Dom) (target : NodeId) (bubbles : Bool) : List NodeId :=
  target :: (if bubbles then dom.ancestors target else [])

/-- Send an event to a node; the event comes back with its target. -/
def dispatch (host : Host σ) (target : NodeId) (event : DomEvent) :
    Act σ DomEvent := do
  let sent := { event with target := some target, current := none }
  travel host { event with target := some target }
    (path (host.liveDom (← get)) target event.bubbles)
  return sent

/-- Send a click. -/
def click (host : Host σ) (target : NodeId) : Act σ DomEvent := do
  dispatch host target (← DomEvent.create "click" true)

end NodeEvents

end LiveTemplate
