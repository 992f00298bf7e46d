import LiveTemplate.Identity

/-!
# Subscription lists

The listeners of one source in the order in which they subscribed.  A number
is never given out twice, so that a listener is still subscribed exactly if its
number is in the list.
-/

namespace LiveTemplate

structure Listener (α : Type) where
  id : ListenerId
  event : String
  action : α

structure Listeners (α : Type) where
  entries : List (Listener α)
  next : Nat

namespace Listeners

variable {α : Type}

def empty : Listeners α := ⟨[], 0⟩

instance : Inhabited (Listeners α) := ⟨empty⟩

/-- Subscribe an action to an event. -/
def add (listeners : Listeners α) (event : String) (action : α) :
    ListenerId × Listeners α :=
  (⟨listeners.next⟩,
    ⟨listeners.entries ++ [⟨⟨listeners.next⟩, event, action⟩],
      listeners.next + 1⟩)

def remove (listeners : Listeners α) (id : ListenerId) : Listeners α :=
  { listeners with
    entries := listeners.entries.filter (fun listener => listener.id ≠ id) }

/-- The listeners of one event. -/
def of (listeners : Listeners α) (event : String) : List (Listener α) :=
  listeners.entries.filter (fun listener => listener.event = event)

/-- Whether a listener is subscribed. -/
def contains (listeners : Listeners α) (id : ListenerId) : Bool :=
  listeners.entries.any (fun listener => listener.id = id)

def size (listeners : Listeners α) : Nat :=
  listeners.entries.length

end Listeners

end LiveTemplate
