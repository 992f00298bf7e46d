import LiveTemplate.Template.Slot

/-!
# Observables

Properties that announce their changes.  A notice goes to the listeners that
were subscribed when it was sent, in the order of subscription, leaving out
those that were removed before their turn.  Setting a property stores the value
first and announces it only if it differs from the previous one.
-/

namespace LiveTemplate

variable {σ : Type}

namespace Observable

def modifyReactions (o : ObservableId)
    (change : Listeners Reaction → Listeners Reaction) : Act σ Unit :=
  modify fun world =>
    { world with reactions := world.reactions.modify o.index change }

/-- Give a property a value in a list of properties. -/
def putProperty (name : String) (value : Value) :
    List (String × Value) → List (String × Value)
  | [] => [(name, value)]
  | (other, old) :: rest =>
      if other == name then (other, value) :: rest
      else (other, old) :: putProperty name value rest

/-- An observable with initial values, which announce nothing. -/
def create (initial : List (String × Value)) : Act σ ObservableId :=
  modifyGet fun world =>
    let properties := initial.foldl
      (fun properties (name, value) => putProperty name value properties) []
    let (index, store) := world.properties.alloc properties
    (⟨index⟩, { world with properties := store })

/-- Subscribe to a notice. -/
def subscribe (o : ObservableId) (event : String) (reaction : Reaction) :
    Act σ ListenerId := do
  let (id, listeners) := ((← get).reactionsOf o).add event reaction
  modifyReactions o fun _ => listeners
  return id

def unsubscribe (o : ObservableId) (id : ListenerId) : Act σ Unit :=
  modifyReactions o (·.remove id)

/-- What a listener does with a notice. -/
def react (host : Host σ) (notice : Notice) : Reaction → Act σ Unit
  | .sync group => group.sync host
  | .call handler => host.notice handler notice

/-- Tell listeners one after the other, those that are still subscribed. -/
def notifyEach (host : Host σ) (o : ObservableId) (notice : Notice) :
    List (Listener Reaction) → Act σ Unit
  | [] => pure ()
  | listener :: rest => do
      if ((← get).reactionsOf o).contains listener.id then
        keeping (.listeners (listener :: rest))
          (react host notice listener.action)
      notifyEach host o notice rest

/-- Send a notice. -/
def fire (host : Host σ) (o : ObservableId) (name : String)
    (payload : Payload) : Act σ Unit := do
  notifyEach host o ⟨name, payload⟩ (((← get).reactionsOf o).of name)

/-- Store a value without announcing it. -/
def store (o : ObservableId) (name : String) (value : Value) : Act σ Unit :=
  modify fun world =>
    { world with
      properties := world.properties.modify o.index (putProperty name value) }

def set (host : Host σ) (o : ObservableId) (name : String) (value : Value) :
    Act σ Unit := do
  let old := (← get).property o name
  store o name value
  if !old.agrees value then
    fire host o (changeOf name) (.change name value old)

/-- The properties of an observable and how many listeners it has. -/
def describe (world : World σ) (o : ObservableId) : String :=
  let entries := (world.propertiesOf o).map fun (name, value) =>
    quoted name ++ ": " ++ value.describe
  "Observable \x7b props: \x7b" ++ String.intercalate ", " entries ++
    "\x7d, listeners: " ++ toString (world.reactionsOf o).size ++ " \x7d"

end Observable

end LiveTemplate
